import Phraseology.Proofs.Decimal.ScoreText
import Phraseology.Proofs.Text.Lines
import Phraseology.Utterance.Record

/-!
# The object form stands on one line

The texts of a record may hold any characters.  In its object form they are quoted, and a quoted
text has no line feed (`newline_notMem_quoted`).  The rest are names, numbers and signs.  So the
objects of some records make up one line (`isLine_array`), from which they can be told apart from
those of the next.
-/

namespace Phraseology.Record

open Text (newline_notMem_append newline_notMem_intercalate)

/-! ## Entries -/

theorem newline_notMem_escapeChar (c : Char) : '\n' ∉ escapeChar c := by
  have hdigit : ∀ n < 16, '\n' ≠ Nat.digitChar n := by decide
  unfold escapeChar
  split
  case h_8 _ _ _ _ hnewline _ _ =>
    split
    · have hlow : '\n' ≠ Nat.digitChar (c.toNat % 16) := hdigit _ (Nat.mod_lt _ (by decide))
      have hhigh : '\n' ≠ if c.toNat < 0x10 then '0' else '1' := by split <;> decide
      simp [hlow, hhigh]
    · exact fun hmem => hnewline (List.mem_singleton.mp hmem).symm
  all_goals decide

theorem newline_notMem_quoted (text : String) : '\n' ∉ (quoted text).toList := by
  rw [quoted, String.toList_ofList, List.mem_append, List.mem_cons, List.mem_flatMap]
  rintro ((hquote | ⟨c, -, hc⟩) | hquote)
  · exact absurd hquote (by decide)
  · exact newline_notMem_escapeChar c hc
  · exact absurd hquote (by decide)

theorem newline_notMem_recordText (x : Float) : '\n' ∉ (Decimal.recordText x).toList := fun hc =>
  absurd (Decimal.isNumeral_of_mem_recordText hc) (by decide)

theorem newline_notMem_entries {record : Record} :
    ∀ entry ∈ record.entries, '\n' ∉ entry.2.toList := by
  have htexts : ∀ (name : String) (field : Option String),
      ∀ entry ∈ field.toList.map fun text => (name, quoted text), '\n' ∉ entry.2.toList := by
    rintro name field _ hentry
    obtain ⟨text, -, rfl⟩ := List.mem_map.mp hentry
    exact newline_notMem_quoted text
  have hnumbers : ∀ (name : String) (score : Option Float),
      ∀ entry ∈ score.toList.map fun x => (name, Decimal.recordText x),
        '\n' ∉ entry.2.toList := by
    rintro name score _ hentry
    obtain ⟨x, -, rfl⟩ := List.mem_map.mp hentry
    exact newline_notMem_recordText x
  simp only [entries, List.forall_mem_append]
  refine ⟨⟨⟨⟨⟨⟨⟨?_, htexts _ _⟩, htexts _ _⟩, hnumbers _ _⟩, hnumbers _ _⟩, hnumbers _ _⟩,
    hnumbers _ _⟩, hnumbers _ _⟩
  simp [newline_notMem_quoted]

/-! ## Objects -/

theorem newline_notMem_object (record : Record) : '\n' ∉ record.object.toList := by
  refine newline_notMem_append (newline_notMem_append (by decide) ?_) (by decide)
  refine newline_notMem_intercalate (by decide) fun text htext => ?_
  obtain ⟨entry, hentry, rfl⟩ := List.mem_map.mp htext
  exact newline_notMem_append (newline_notMem_append (newline_notMem_quoted _) (by decide))
    (newline_notMem_entries entry hentry)

/-- The object forms of some records stand on one line. -/
theorem isLine_array (records : List Record) : Text.IsLine (array records) where
  feed := by
    refine newline_notMem_append (newline_notMem_append (by decide) ?_) (by decide)
    refine newline_notMem_intercalate (by decide) fun text htext => ?_
    obtain ⟨record, -, rfl⟩ := List.mem_map.mp htext
    exact newline_notMem_object record
  carriage := by
    have hlast : (array records).toList.getLast? = some ']' := by
      have hclose : "]".toList = [']'] := by decide
      rw [array, String.toList_append, hclose, List.getLast?_concat]
    rw [hlast]
    decide

end Phraseology.Record
