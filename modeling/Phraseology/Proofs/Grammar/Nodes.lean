import Phraseology.Proofs.Grammar.Rows

/-!
# The nodes of a grammar file

Rows are added to a grammar in the order of the file.  What a node is does not depend on how they
are mixed: it is terminal if any row names it so, and otherwise has the arcs of its rows
(`nodeOf`).  One more row keeps this (`Built.addRow`), so it holds of a whole file
(`Built.foldl_addRow`).  The arcs of a node are inserted one by one, each behind those with the
same or a lower target, which keeps them in order and leaves those to one target in the order of
their rows (`pairwise_sortArcs`, `filter_sortArcs`).

So a grammar that was read is described by its rows (`Describes`), and to move terminal rows
about in a file changes nothing (`ofBytes_describes`).
-/

namespace Phraseology

open GrammarRow

namespace Grammar

variable {grammar : Grammar} {rows more : List GrammarRow} {node target : Nat} {arc : Arc}
  {arcs : List (Nat × Arc)}

/-! ## Arcs in order -/

theorem mem_insertArc_iff {entry : Nat × Arc} :
    entry ∈ insertArc target arc arcs ↔ entry = (target, arc) ∨ entry ∈ arcs := by
  induction arcs with
  | nil => simp [insertArc]
  | cons first arcs ih =>
      unfold insertArc
      split
      · rw [List.mem_cons, ih, List.mem_cons]
        exact or_left_comm
      · rw [List.mem_cons]

theorem pairwise_insertArc (hsorted : arcs.Pairwise fun first second => first.1 ≤ second.1) :
    (insertArc target arc arcs).Pairwise fun first second => first.1 ≤ second.1 := by
  induction arcs with
  | nil => simp [insertArc]
  | cons first arcs ih =>
      obtain ⟨hfirst, hrest⟩ := List.pairwise_cons.mp hsorted
      unfold insertArc
      split
      · next hle =>
          refine List.pairwise_cons.mpr ⟨fun entry hentry => ?_, ih hrest⟩
          rcases mem_insertArc_iff.mp hentry with rfl | hentry
          · exact hle
          · exact hfirst entry hentry
      · next hlt =>
          refine List.pairwise_cons.mpr ⟨fun entry hentry => ?_, hsorted⟩
          have htarget : target ≤ first.1 := Nat.le_of_not_le hlt
          rcases List.mem_cons.mp hentry with rfl | hentry
          · exact htarget
          · exact Nat.le_trans htarget (hfirst entry hentry)

/-- A new arc stands behind all arcs to the same target. -/
theorem filter_insertArc (hsorted : arcs.Pairwise fun first second => first.1 ≤ second.1)
    (id : Nat) :
    (insertArc target arc arcs).filter (·.1 == id) =
      (arcs ++ [(target, arc)]).filter (·.1 == id) := by
  induction arcs with
  | nil => rfl
  | cons first arcs ih =>
      obtain ⟨hfirst, hrest⟩ := List.pairwise_cons.mp hsorted
      unfold insertArc
      split
      · rw [List.filter_cons, ih hrest, List.cons_append, List.filter_cons]
      · next hlt =>
          -- of arcs to the same target there are none behind the new one
          have hswap : [(target, arc)].filter (·.1 == id) ++ (first :: arcs).filter (·.1 == id) =
              (first :: arcs).filter (·.1 == id) ++ [(target, arc)].filter (·.1 == id) := by
            by_cases hid : target = id
            · have hnone : (first :: arcs).filter (·.1 == id) = [] := by
                rw [List.filter_eq_nil_iff]
                intro entry hentry
                have hle : first.1 ≤ entry.1 := by
                  rcases List.mem_cons.mp hentry with rfl | hentry
                  · exact Nat.le_refl _
                  · exact hfirst entry hentry
                simp only [beq_iff_eq]
                omega
              rw [hnone, List.nil_append, List.append_nil]
            · have hnone : [(target, arc)].filter (·.1 == id) = [] := by simp [hid]
              rw [hnone, List.nil_append, List.append_nil]
          calc ((target, arc) :: first :: arcs).filter (·.1 == id)
              = [(target, arc)].filter (·.1 == id) ++ (first :: arcs).filter (·.1 == id) :=
                List.filter_append [(target, arc)] (first :: arcs)
            _ = (first :: arcs).filter (·.1 == id) ++ [(target, arc)].filter (·.1 == id) := hswap
            _ = (first :: arcs ++ [(target, arc)]).filter (·.1 == id) :=
                (List.filter_append ..).symm

/-- Arcs inserted one after the other into those that are there. -/
def insertArcs (known arcs : List (Nat × Arc)) : List (Nat × Arc) :=
  arcs.foldl (fun known entry => insertArc entry.1 entry.2 known) known

/-- Arcs in order of their targets, those to one target as they come. -/
def sortArcs (arcs : List (Nat × Arc)) : List (Nat × Arc) :=
  insertArcs [] arcs

theorem pairwise_insertArcs {known : List (Nat × Arc)}
    (hsorted : known.Pairwise fun first second => first.1 ≤ second.1) :
    (insertArcs known arcs).Pairwise fun first second => first.1 ≤ second.1 := by
  induction arcs generalizing known with
  | nil => exact hsorted
  | cons entry arcs ih => exact ih (pairwise_insertArc hsorted)

theorem filter_insertArcs {known : List (Nat × Arc)}
    (hsorted : known.Pairwise fun first second => first.1 ≤ second.1) (id : Nat) :
    (insertArcs known arcs).filter (·.1 == id) = (known ++ arcs).filter (·.1 == id) := by
  induction arcs generalizing known with
  | nil => rw [List.append_nil]; rfl
  | cons entry arcs ih =>
      have hinsert : (insertArc entry.1 entry.2 known).Pairwise
          fun first second => first.1 ≤ second.1 := pairwise_insertArc hsorted
      have hmore := ih hinsert
      rw [List.filter_append, filter_insertArc hsorted, ← List.filter_append, List.append_assoc]
        at hmore
      exact hmore

theorem pairwise_sortArcs (arcs : List (Nat × Arc)) :
    (sortArcs arcs).Pairwise fun first second => first.1 ≤ second.1 :=
  pairwise_insertArcs List.Pairwise.nil

theorem filter_sortArcs (arcs : List (Nat × Arc)) (id : Nat) :
    (sortArcs arcs).filter (·.1 == id) = arcs.filter (·.1 == id) :=
  filter_insertArcs List.Pairwise.nil id

theorem sortArcs_append_singleton (arcs : List (Nat × Arc)) (entry : Nat × Arc) :
    sortArcs (arcs ++ [entry]) = insertArc entry.1 entry.2 (sortArcs arcs) := by
  simp [sortArcs, insertArcs]

/-! ## Nodes -/

/-- The arc that a row adds to a node, with its target. -/
def arcFrom? (node : Nat) : GrammarRow → Option (Nat × Arc)
  | .terminal _ => none
  | .arc source target arc => if source = node then some (target, arc) else none

/-- The arcs that some rows add to a node, in the order of the rows. -/
def arcsFrom (node : Nat) (rows : List GrammarRow) : List (Nat × Arc) :=
  rows.filterMap (arcFrom? node)

/-- Whether a row names a node as terminal. -/
def endsAt (node : Nat) : GrammarRow → Bool
  | .terminal id => id == node
  | .arc .. => false

/-- What some rows make of a node. -/
def nodeOf (node : Nat) (rows : List GrammarRow) : Option Node :=
  if rows.any (endsAt node) then some .terminal
  else if arcsFrom node rows = [] then none
  else some (.branching (sortArcs (arcsFrom node rows)))

/-- A grammar is what some rows make of it. -/
def Built (grammar : Grammar) (rows : List GrammarRow) : Prop :=
  ∀ node, grammar.node? node = nodeOf node rows

theorem any_endsAt_iff : rows.any (endsAt node) = true ↔ .terminal node ∈ rows := by
  rw [List.any_eq_true]
  constructor
  · rintro ⟨row, hrow, hends⟩
    cases row with
    | terminal id =>
        have hid : id = node := eq_of_beq hends
        exact hid ▸ hrow
    | arc source target arc => cases hends
  · intro hmem
    exact ⟨_, hmem, beq_self_eq_true node⟩

theorem node?_insert (id : Nat) (entry : Node) :
    node? { grammar with nodes := grammar.nodes.insert id entry } node =
      if id = node then some entry else grammar.node? node := by
  simp only [node?, Std.TreeMap.getElem?_insert, Std.LawfulEqCmp.compare_eq_iff_eq]

theorem addArc_of_terminal {source : Nat} (hsource : grammar.node? source = some .terminal) :
    grammar.addArc source target arc = grammar := by
  rw [addArc, hsource]

theorem node?_addArc {source : Nat} (hsource : grammar.node? source ≠ some .terminal) :
    (grammar.addArc source target arc).node? node =
      if source = node then some (.branching (insertArc target arc (grammar.transitions source)))
      else grammar.node? node := by
  unfold addArc
  split
  · next hterminal => exact absurd hterminal hsource
  · exact node?_insert source _

theorem Built.transitions_eq (hbuilt : Built grammar rows)
    (hends : rows.any (endsAt node) = false) :
    grammar.transitions node = sortArcs (arcsFrom node rows) := by
  have hnode := hbuilt node
  rw [nodeOf, hends, if_neg (by decide)] at hnode
  rw [transitions, hnode]
  by_cases hnone : arcsFrom node rows = []
  · rw [if_pos hnone, hnone]
    rfl
  · rw [if_neg hnone]

theorem built_empty (name : String) : Built (empty name) [] := by
  intro node
  rw [node?, empty]
  exact Std.TreeMap.getElem?_emptyc

theorem arcsFrom_append_singleton (row : GrammarRow) :
    arcsFrom node (rows ++ [row]) = arcsFrom node rows ++ (arcFrom? node row).toList := by
  rw [arcsFrom, List.filterMap_append, ← arcsFrom]
  cases hrow : arcFrom? node row <;> simp [hrow]

theorem nodeOf_append_singleton (row : GrammarRow) :
    nodeOf node (rows ++ [row]) =
      if rows.any (endsAt node) || endsAt node row then some .terminal
      else if arcsFrom node rows ++ (arcFrom? node row).toList = [] then none
      else some (.branching (sortArcs (arcsFrom node rows ++ (arcFrom? node row).toList))) := by
  rw [nodeOf, List.any_append, List.any_cons, List.any_nil, Bool.or_false,
    arcsFrom_append_singleton]

theorem nodeOf_eq_terminal_iff :
    nodeOf node rows = some .terminal ↔ rows.any (endsAt node) = true := by
  rw [nodeOf]
  split
  · next hends => simp [hends]
  · next hends => split <;> simp [hends]

/-- One more row is one more row of its node. -/
theorem Built.addRow (hbuilt : Built grammar rows) (row : GrammarRow) :
    Built (grammar.addRow row) (rows ++ [row]) := by
  intro node
  have hnode := hbuilt node
  rw [nodeOf] at hnode
  rw [nodeOf_append_singleton]
  cases row with
  | terminal id =>
      rw [Grammar.addRow, markTerminal, node?_insert, hnode]
      by_cases hid : id = node
      · simp [hid, endsAt]
      · simp [hid, endsAt, arcFrom?]
  | arc source target arc =>
      have hsame : endsAt node (.arc source target arc) = false := rfl
      rw [Grammar.addRow, hsame, Bool.or_false, arcFrom?]
      by_cases hends : rows.any (endsAt source) = true
      · have hterminal : grammar.node? source = some .terminal := by
          rw [hbuilt source, nodeOf_eq_terminal_iff]
          exact hends
        rw [addArc_of_terminal hterminal, hnode]
        by_cases hsource : source = node
        · rw [← hsource, if_pos hends, if_pos hends]
        · simp [hsource]
      · have hopen : grammar.node? source ≠ some .terminal := by
          rw [hbuilt source, ne_eq, nodeOf_eq_terminal_iff]
          exact hends
        rw [node?_addArc hopen, hnode]
        by_cases hsource : source = node
        · subst hsource
          rw [Bool.not_eq_true] at hends
          simp [hends, hbuilt.transitions_eq hends, sortArcs_append_singleton]
        · simp [hsource]

theorem Built.foldl_addRow (hbuilt : Built grammar rows) (more : List GrammarRow) :
    Built (more.foldl Grammar.addRow grammar) (rows ++ more) := by
  induction more generalizing grammar rows with
  | nil => simpa using hbuilt
  | cons row more ih => simpa using ih (hbuilt.addRow row)

theorem name_addRow (row : GrammarRow) : (grammar.addRow row).name = grammar.name := by
  cases row with
  | terminal id => rfl
  | arc source target arc =>
      rw [addRow, addArc]
      split <;> rfl

theorem name_foldl_addRow (rows : List GrammarRow) :
    (rows.foldl addRow grammar).name = grammar.name := by
  induction rows generalizing grammar with
  | nil => rfl
  | cons row rows ih => rw [List.foldl_cons, ih, name_addRow]

/-! ## What a file says -/

/-- A grammar says what some rows say: a node is terminal if one of them names it so, and then has
no arcs, and all other nodes have the arcs of their rows, by target, and in the order of the rows
to the same target. -/
structure Describes (rows : List GrammarRow) (grammar : Grammar) : Prop where
  terminal : ∀ node, grammar.isTerminal node = true ↔ .terminal node ∈ rows
  closed : ∀ node, .terminal node ∈ rows → grammar.transitions node = []
  ordered : ∀ node, (grammar.transitions node).Pairwise fun first second => first.1 ≤ second.1
  arcs : ∀ node, .terminal node ∉ rows → ∀ target,
    (grammar.transitions node).filter (·.1 == target) =
      (arcsFrom node rows).filter (·.1 == target)

theorem Built.describes (hbuilt : Built grammar rows) : Describes rows grammar := by
  have hclosed : ∀ node, .terminal node ∈ rows → grammar.node? node = some .terminal := by
    intro node hends
    rw [hbuilt node, nodeOf, if_pos (any_endsAt_iff.mpr hends)]
  have hopen : ∀ node, .terminal node ∉ rows →
      grammar.transitions node = sortArcs (arcsFrom node rows) := by
    intro node hends
    rw [← any_endsAt_iff, Bool.not_eq_true] at hends
    exact hbuilt.transitions_eq hends
  refine ⟨fun node => ?_, fun node hends => ?_, fun node => ?_, fun node hends target => ?_⟩
  · rw [← any_endsAt_iff, isTerminal, hbuilt node, nodeOf]
    cases rows.any (endsAt node) with
    | true => simp
    | false =>
        by_cases hnone : arcsFrom node rows = []
        · simp [hnone]
        · simp [hnone]
  · rw [transitions, hclosed node hends]
  · by_cases hends : .terminal node ∈ rows
    · rw [transitions, hclosed node hends]
      exact List.Pairwise.nil
    · rw [hopen node hends]
      exact pairwise_sortArcs _
  · rw [hopen node hends, filter_sortArcs]

/-! ## Terminal rows elsewhere -/

/-- The row on a line, if there is one. -/
def rowOn? (line : String) : Option GrammarRow :=
  match ofLine line with
  | .ok row => row
  | .error _ => none

/-- Whether a line has too many fields for a terminal row. -/
def holdsArc (line : String) : Bool :=
  2 < (fieldsOf line).length

/-- Lines of which some with one or two fields were moved. -/
structure Moved (lines moved : List String) : Prop where
  same : moved.Perm lines
  arcs : moved.filter holdsArc = lines.filter holdsArc

variable {lines moved : List String}

theorem rowOn?_eq_some_iff {line : String} {row : GrammarRow} :
    rowOn? line = some row ↔ Text.isBlankText line = false ∧ Says line row := by
  rw [← ofLine_eq_some_iff, rowOn?]
  cases ofLine line <;> simp

theorem rowOn?_of_blank {line : String} (hblank : Text.isBlankText line = true) :
    rowOn? line = none := by
  rw [rowOn?, ofLine_of_blank hblank]

theorem eq_filterMap_of_reads (hreads : Reads lines rows) : rows = lines.filterMap rowOn? := by
  induction hreads with
  | nil => rfl
  | blank hblank _ ih => rw [List.filterMap_cons_none (rowOn?_of_blank hblank), ← ih]
  | row hblank hrow _ ih =>
      rw [List.filterMap_cons_some (rowOn?_eq_some_iff.mpr ⟨hblank, hrow⟩), ← ih]

/-- A row on a line with one or two fields names a terminal node. -/
theorem arcFrom?_of_shaped {fields : List String} {row : GrammarRow} (hshaped : Shaped fields row)
    (hfields : fields.length ≤ 2) (node : Nat) : arcFrom? node row = none := by
  cases hshaped with
  | terminal => rfl
  | weightedTerminal => rfl
  | arc => simp at hfields
  | weightedArc => simp at hfields

theorem arcsFrom_filterMap (lines : List String) :
    arcsFrom node (lines.filterMap rowOn?) =
      arcsFrom node ((lines.filter holdsArc).filterMap rowOn?) := by
  induction lines with
  | nil => rfl
  | cons line lines ih =>
      cases hline : holdsArc line with
      | true =>
          rw [List.filter_cons_of_pos hline]
          cases hrow : rowOn? line with
          | none => rw [List.filterMap_cons_none hrow, List.filterMap_cons_none hrow, ih]
          | some row =>
              rw [List.filterMap_cons_some hrow, List.filterMap_cons_some hrow, arcsFrom, arcsFrom,
                List.filterMap_cons, List.filterMap_cons, ← arcsFrom, ← arcsFrom, ih]
      | false =>
          rw [List.filter_cons_of_neg (by simp [hline]), ← ih]
          cases hrow : rowOn? line with
          | none => rw [List.filterMap_cons_none hrow]
          | some row =>
              have hfields : (fieldsOf line).length ≤ 2 := by
                rw [holdsArc, decide_eq_false_iff_not] at hline
                exact Nat.le_of_not_lt hline
              have hnone := arcFrom?_of_shaped (rowOn?_eq_some_iff.mp hrow).2 hfields node
              rw [List.filterMap_cons_some hrow, arcsFrom, List.filterMap_cons_none hnone,
                ← arcsFrom]

theorem nodeOf_of_moved (hmoved : Moved lines moved) (node : Nat) :
    nodeOf node (moved.filterMap rowOn?) = nodeOf node (lines.filterMap rowOn?) := by
  have hrows := hmoved.same.filterMap rowOn?
  have hany : (moved.filterMap rowOn?).any (endsAt node) =
      (lines.filterMap rowOn?).any (endsAt node) := hrows.any_eq
  rw [nodeOf, nodeOf, hany, arcsFrom_filterMap moved, arcsFrom_filterMap lines, hmoved.arcs]

/-! ## Whole files -/

theorem ofBytes_of_reads {name text : String} (hreads : Reads (Text.textLines text) rows) :
    ofBytes name text.toUTF8 = .ok (rows.foldl addRow (empty name)) := by
  rw [ofBytes, Text.lines_toUTF8]
  exact readLines_of_reads hreads

theorem built_of_rows (name : String) (rows : List GrammarRow) :
    Built (rows.foldl addRow (empty name)) rows :=
  (built_empty name).foldl_addRow rows

theorem exists_reads_of_ofBytes {name text : String}
    (hread : ofBytes name text.toUTF8 = .ok grammar) :
    ∃ rows, Reads (Text.textLines text) rows ∧ grammar = rows.foldl addRow (empty name) := by
  rcases exists_reads_or_faulty (Text.textLines text) with
    ⟨rows, hreads⟩ | ⟨before, line, after, hlines, hbefore, hfaulty⟩
  · rw [ofBytes_of_reads hreads] at hread
    exact ⟨rows, hreads, (Except.ok.inj hread).symm⟩
  · obtain ⟨fault, hfault⟩ := readLines_of_faulty hbefore hfaulty
    rw [ofBytes, Text.lines_toUTF8, hlines, hfault] at hread
    cases hread

/-- The first faulty line is reported, counted from one. -/
theorem exists_faulty_of_ofBytes {name text : String} {failure : Failure}
    (hread : ofBytes name text.toUTF8 = .error failure) :
    ∃ before line after fault, Text.textLines text = before ++ line :: after ∧
      (∀ earlier ∈ before, ¬ IsFaulty earlier) ∧ IsFaulty line ∧
      failure = .malformedRow (before.length + 1) fault := by
  rcases exists_reads_or_faulty (Text.textLines text) with
    ⟨rows, hreads⟩ | ⟨before, line, after, hlines, hbefore, hfaulty⟩
  · rw [ofBytes_of_reads hreads] at hread
    cases hread
  · obtain ⟨fault, hfault⟩ := readLines_of_faulty hbefore hfaulty
    rw [ofBytes, Text.lines_toUTF8, hlines, hfault, Nat.add_comm] at hread
    exact ⟨before, line, after, fault, hlines, hbefore, hfaulty, (Except.error.inj hread).symm⟩

/-- Whether a file can be read does not depend on the order of its lines. -/
theorem exists_ofBytes_iff {name text : String} :
    (∃ grammar, ofBytes name text.toUTF8 = .ok grammar) ↔
      ∀ line ∈ Text.textLines text, ¬ IsFaulty line := by
  rw [← exists_reads_iff]
  constructor
  · rintro ⟨grammar, hread⟩
    obtain ⟨rows, hreads, -⟩ := exists_reads_of_ofBytes hread
    exact ⟨rows, hreads⟩
  · rintro ⟨rows, hreads⟩
    exact ⟨_, ofBytes_of_reads hreads⟩

theorem ofBytes_of_moved {name text other : String}
    (hread : ofBytes name text.toUTF8 = .ok grammar)
    (hmoved : Moved (Text.textLines text) (Text.textLines other)) :
    ∃ again, ofBytes name other.toUTF8 = .ok again ∧ again.name = grammar.name ∧
      again.nodes.Equiv grammar.nodes := by
  have hlines : ∀ line ∈ Text.textLines other, ¬ IsFaulty line := fun line hline =>
    exists_ofBytes_iff.mp ⟨grammar, hread⟩ line (hmoved.same.mem_iff.mp hline)
  obtain ⟨again, hagain⟩ : ∃ again, ofBytes name other.toUTF8 = .ok again :=
    exists_ofBytes_iff.mpr hlines
  obtain ⟨rows, hreads, rfl⟩ := exists_reads_of_ofBytes hread
  obtain ⟨more, hmore, rfl⟩ := exists_reads_of_ofBytes hagain
  refine ⟨_, hagain, ?_, Std.TreeMap.Equiv.of_forall_constGet?_eq fun node => ?_⟩
  · rw [name_foldl_addRow, name_foldl_addRow]
  · calc (more.foldl addRow (empty name)).node? node
        = nodeOf node more := built_of_rows name more node
      _ = nodeOf node rows := by
          rw [eq_filterMap_of_reads hmore, eq_filterMap_of_reads hreads, nodeOf_of_moved hmoved]
      _ = (rows.foldl addRow (empty name)).node? node := (built_of_rows name rows node).symm

/-- A file can be read if each line is blank or a row, and otherwise the first line that is neither
is reported.  The grammar is what its rows say, and the same one if terminal rows stand
elsewhere. -/
theorem ofBytes_describes (name text : String) :
    ((∃ grammar, ofBytes name text.toUTF8 = .ok grammar) ↔
      ∀ line ∈ Text.textLines text, Text.isBlankText line = true ∨ ∃ row, Says line row) ∧
    (∀ failure, ofBytes name text.toUTF8 = .error failure →
      ∃ before line after fault, Text.textLines text = before ++ line :: after ∧
        (∀ earlier ∈ before, ¬ IsFaulty earlier) ∧ IsFaulty line ∧
        failure = .malformedRow (before.length + 1) fault) ∧
    (∀ grammar, ofBytes name text.toUTF8 = .ok grammar →
      ∃ rows, Reads (Text.textLines text) rows ∧ grammar.name = name ∧ Describes rows grammar) ∧
    (∀ grammar other, ofBytes name text.toUTF8 = .ok grammar →
      Moved (Text.textLines text) (Text.textLines other) →
      ∃ again, ofBytes name other.toUTF8 = .ok again ∧ again.name = grammar.name ∧
        again.nodes.Equiv grammar.nodes) := by
  refine ⟨?_, fun failure => exists_faulty_of_ofBytes, fun grammar hread => ?_,
    fun grammar other => ofBytes_of_moved⟩
  · rw [exists_ofBytes_iff]
    refine forall₂_congr fun line _ => ?_
    rw [not_isFaulty_iff]
  · obtain ⟨rows, hreads, rfl⟩ := exists_reads_of_ofBytes hread
    exact ⟨rows, hreads, name_foldl_addRow rows, (built_of_rows name rows).describes⟩

end Grammar

end Phraseology
