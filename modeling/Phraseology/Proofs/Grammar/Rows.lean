import Phraseology.Grammar.Reader
import Phraseology.Proofs.Text.Lines

/-!
# The rows of a grammar file

A row has one of four shapes (`Shaped`): the number of a terminal node, alone or with a weight, and
an arc with its source, target, input and output, alone or with a weight.  Numbers may have blank
characters around them, and a row is trimmed before it is cut at its tabs, so empty fields at its
end do not count.

A file can be read exactly if each line is blank or a row of these shapes.  Then its rows are added
to the grammar one after the other (`readLines_of_reads`).  Otherwise the first line that is neither
is reported with its number (`readLines_of_faulty`).  One of the two is the case
(`exists_reads_or_faulty`).
-/

namespace Phraseology

namespace GrammarRow

variable {fields : List String} {row : GrammarRow} {line : String} {lines : List String}

/-! ## Shapes -/

/-- Whether a field holds the number of a node. -/
def NamesNode (field : String) (node : Nat) : Prop :=
  Decimal.natOfBits? 32 (Text.trim field) = some node

/-- Whether a field holds a weight. -/
def Weighs (field : String) (weight : Float) : Prop :=
  Decimal.float? (Text.trim field) = some weight

/-- The fields that make up a row. -/
inductive Shaped : List String → GrammarRow → Prop
  | terminal {field : String} {node : Nat} (hnode : NamesNode field node) :
      Shaped [field] (.terminal node)
  | weightedTerminal {field final : String} {node : Nat} {weight : Float}
      (hnode : NamesNode field node) (hweight : Weighs final weight) :
      Shaped [field, final] (.terminal node)
  | arc {first second input output : String} {source target : Nat}
      (hsource : NamesNode first source) (htarget : NamesNode second target) :
      Shaped [first, second, input, output]
        (.arc source target { input, output := Text.lower output, weight := none })
  | weightedArc {first second input output last : String} {source target : Nat} {weight : Float}
      (hsource : NamesNode first source) (htarget : NamesNode second target)
      (hweight : Weighs last weight) :
      Shaped [first, second, input, output, last]
        (.arc source target { input, output := Text.lower output, weight := some weight })

theorem field_eq_ok_iff {α : Type} {read? : String → Option α} {what text : String} {value : α} :
    field read? what text = .ok value ↔ read? (Text.trim text) = some value := by
  unfold field
  cases read? (Text.trim text) <;> simp

theorem nodeField_eq_ok_iff {text : String} {node : Nat} :
    nodeField text = .ok node ↔ NamesNode text node :=
  field_eq_ok_iff

theorem weightField_eq_ok_iff {what text : String} {weight : Float} :
    field Decimal.float? what text = .ok weight ↔ Weighs text weight :=
  field_eq_ok_iff

theorem arcOf_eq_ok_iff {weight : Option Float} {first second input output : String} :
    arcOf weight first second input output = .ok row ↔
      ∃ source target, NamesNode first source ∧ NamesNode second target ∧
        row = .arc source target { input, output := Text.lower output, weight } := by
  simp only [← nodeField_eq_ok_iff]
  unfold arcOf
  cases nodeField first with
  | error fault => simp
  | ok source => cases nodeField second <;> simp [eq_comm]

theorem map_terminal_eq_ok_iff {text : String} :
    (nodeField text).map terminal = .ok row ↔
      ∃ node, NamesNode text node ∧ row = .terminal node := by
  simp only [← nodeField_eq_ok_iff]
  cases nodeField text <;> simp [Except.map, eq_comm]

/-- Fields make up the row whose shape they have. -/
theorem ofFields_eq_ok_iff : ofFields fields = .ok row ↔ Shaped fields row := by
  constructor
  · intro hrow
    unfold ofFields at hrow
    split at hrow
    · obtain ⟨node, hnode, rfl⟩ := map_terminal_eq_ok_iff.mp hrow
      exact .terminal hnode
    · split at hrow
      · cases hrow
      · next hweight =>
          obtain ⟨node, hnode, rfl⟩ := map_terminal_eq_ok_iff.mp hrow
          exact .weightedTerminal hnode (weightField_eq_ok_iff.mp hweight)
    · obtain ⟨source, target, hsource, htarget, rfl⟩ := arcOf_eq_ok_iff.mp hrow
      exact .arc hsource htarget
    · split at hrow
      · cases hrow
      · next hweight =>
          obtain ⟨source, target, hsource, htarget, rfl⟩ := arcOf_eq_ok_iff.mp hrow
          exact .weightedArc hsource htarget (weightField_eq_ok_iff.mp hweight)
    · cases hrow
  · intro hshaped
    unfold ofFields
    cases hshaped with
    | terminal hnode =>
        simp only [map_terminal_eq_ok_iff]
        exact ⟨_, hnode, rfl⟩
    | weightedTerminal hnode hweight =>
        simp only [weightField_eq_ok_iff.mpr hweight, map_terminal_eq_ok_iff]
        exact ⟨_, hnode, rfl⟩
    | arc hsource htarget =>
        simp only [arcOf_eq_ok_iff]
        exact ⟨_, _, hsource, htarget, rfl⟩
    | weightedArc hsource htarget hweight =>
        simp only [weightField_eq_ok_iff.mpr hweight, arcOf_eq_ok_iff]
        exact ⟨_, _, hsource, htarget, rfl⟩

/-! ## Lines -/

/-- The fields on a line. -/
def fieldsOf (line : String) : List String :=
  Text.tabFields (Text.trim line)

/-- Whether a line says what a row says. -/
def Says (line : String) (row : GrammarRow) : Prop :=
  Shaped (fieldsOf line) row

/-- Whether a line is neither blank nor a row. -/
def IsFaulty (line : String) : Prop :=
  Text.isBlankText line = false ∧ ∀ row, ¬ Says line row

/-- The rows on some lines.  Blank lines are passed over. -/
inductive Reads : List String → List GrammarRow → Prop
  | nil : Reads [] []
  | blank {line : String} {lines : List String} {rows : List GrammarRow}
      (hblank : Text.isBlankText line = true) (hreads : Reads lines rows) :
      Reads (line :: lines) rows
  | row {line : String} {lines : List String} {row : GrammarRow} {rows : List GrammarRow}
      (hblank : Text.isBlankText line = false) (hrow : Says line row)
      (hreads : Reads lines rows) : Reads (line :: lines) (row :: rows)

theorem not_isFaulty_iff :
    ¬ IsFaulty line ↔ Text.isBlankText line = true ∨ ∃ row, Says line row := by
  simp only [IsFaulty, Classical.not_and_iff_not_or_not, Classical.not_forall, Classical.not_not,
    Bool.not_eq_false]

theorem ofLine_of_blank (hblank : Text.isBlankText line = true) : ofLine line = .ok none := by
  rw [ofLine, if_pos hblank]

theorem ofLine_of_not_blank (hblank : Text.isBlankText line = false) :
    ofLine line = (ofFields (fieldsOf line)).map some := by
  rw [ofLine, hblank]
  rfl

theorem ofLine_eq_some_iff :
    ofLine line = .ok (some row) ↔ Text.isBlankText line = false ∧ Says line row := by
  rw [Says, ← ofFields_eq_ok_iff]
  cases hblank : Text.isBlankText line with
  | true => simp [ofLine_of_blank hblank]
  | false =>
      rw [ofLine_of_not_blank hblank]
      cases ofFields (fieldsOf line) <;> simp [Except.map]

/-- An empty weight at the end of a row is no field. -/
example : ofLine " 3\t" = .ok (some (.terminal 3)) := rfl

theorem exists_fault_of_isFaulty (hfaulty : IsFaulty line) :
    ∃ fault, ofLine line = .error fault := by
  obtain ⟨hblank, hnone⟩ := hfaulty
  rw [ofLine_of_not_blank hblank]
  cases hfields : ofFields (fieldsOf line) with
  | error fault => exact ⟨fault, rfl⟩
  | ok row => exact absurd (ofFields_eq_ok_iff.mp hfields) (hnone row)

theorem Reads.not_isFaulty {rows : List GrammarRow} (hreads : Reads lines rows) :
    ∀ line ∈ lines, ¬ IsFaulty line := by
  induction hreads with
  | nil => simp
  | blank hblank _ ih =>
      refine List.forall_mem_cons.mpr ⟨fun hfaulty => ?_, ih⟩
      rw [hfaulty.1] at hblank
      cases hblank
  | row _ hrow _ ih => exact List.forall_mem_cons.mpr ⟨fun hfaulty => hfaulty.2 _ hrow, ih⟩

/-- Lines that are not faulty hold rows. -/
theorem exists_reads_iff : (∃ rows, Reads lines rows) ↔ ∀ line ∈ lines, ¬ IsFaulty line := by
  constructor
  · rintro ⟨rows, hreads⟩
    exact hreads.not_isFaulty
  · intro hlines
    induction lines with
    | nil => exact ⟨[], .nil⟩
    | cons line lines ih =>
        obtain ⟨hline, hlines⟩ := List.forall_mem_cons.mp hlines
        obtain ⟨rows, hreads⟩ := ih hlines
        cases hblank : Text.isBlankText line with
        | true => exact ⟨rows, .blank hblank hreads⟩
        | false =>
            rw [not_isFaulty_iff, hblank, Bool.false_eq_true, false_or] at hline
            obtain ⟨row, hrow⟩ := hline
            exact ⟨row :: rows, .row hblank hrow hreads⟩

/-- Some lines hold rows, or one of them is the first faulty one. -/
theorem exists_reads_or_faulty (lines : List String) :
    (∃ rows, Reads lines rows) ∨ ∃ before line after, lines = before ++ line :: after ∧
      (∀ earlier ∈ before, ¬ IsFaulty earlier) ∧ IsFaulty line := by
  induction lines with
  | nil => exact .inl ⟨[], .nil⟩
  | cons line lines ih =>
      by_cases hfaulty : IsFaulty line
      · exact .inr ⟨[], line, lines, rfl, by simp, hfaulty⟩
      · rcases ih with hreads | ⟨before, other, after, rfl, hbefore, hother⟩
        · rw [exists_reads_iff] at hreads
          exact .inl (exists_reads_iff.mpr (List.forall_mem_cons.mpr ⟨hfaulty, hreads⟩))
        · exact .inr ⟨line :: before, other, after, rfl,
            List.forall_mem_cons.mpr ⟨hfaulty, hbefore⟩, hother⟩

end GrammarRow

/-! ## Files -/

namespace Grammar

open GrammarRow

variable {grammar : Grammar} {lines before after : List String} {line : String}
  {rows : List GrammarRow} {number : Nat}

theorem readLines_append (hreads : Reads before rows) (rest : List (Option String)) :
    readLines grammar number (before.map some ++ rest) =
      readLines (rows.foldl addRow grammar) (number + before.length) rest := by
  induction hreads generalizing grammar number with
  | nil => rfl
  | @blank line lines rows hblank _ ih =>
      have hnumber : number + 1 + lines.length = number + (line :: lines).length := by
        rw [List.length_cons]
        omega
      rw [List.map_cons, List.cons_append, readLines, ofLine_of_blank hblank, ← hnumber]
      exact ih
  | @row line lines row rows hblank hrow _ ih =>
      have hnumber : number + 1 + lines.length = number + (line :: lines).length := by
        rw [List.length_cons]
        omega
      rw [List.map_cons, List.cons_append, readLines, ofLine_eq_some_iff.mpr ⟨hblank, hrow⟩,
        ← hnumber]
      exact ih

/-- Rows are added to the grammar one after the other. -/
theorem readLines_of_reads (hreads : Reads lines rows) :
    readLines grammar number (lines.map some) = .ok (rows.foldl addRow grammar) := by
  rw [← List.append_nil (lines.map some)]
  exact readLines_append hreads []

/-- The first faulty line is reported with its number. -/
theorem readLines_of_faulty (hbefore : ∀ earlier ∈ before, ¬ IsFaulty earlier)
    (hfaulty : IsFaulty line) :
    ∃ fault, readLines grammar number ((before ++ line :: after).map some) =
      .error (.malformedRow (number + before.length) fault) := by
  obtain ⟨rows, hreads⟩ := exists_reads_iff.mpr hbefore
  obtain ⟨fault, hfault⟩ := exists_fault_of_isFaulty hfaulty
  refine ⟨fault, ?_⟩
  rw [List.map_append, readLines_append hreads, List.map_cons, readLines, hfault]

end Grammar

end Phraseology
