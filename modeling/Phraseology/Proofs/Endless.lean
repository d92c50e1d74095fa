import Mathlib.Data.List.Forall2
import Phraseology.Error

/-!
# Readings that may have no end

Much of what is read from a text is read in any case, unless a loop in it has no end.  `ReadIff`
says so of a result, with a condition under which the loops end.  It is carried through the ways in
which results are put together: what is made of a result, two readings one after the other, and the
readings of a list.
-/

namespace Phraseology

/-- Whether a reading has a result under a condition, and no end if this does not hold. -/
structure ReadIff {α : Type} (ends : Prop) (result : Except Failure α) : Prop where
  read : ends → ∃ a, result = .ok a
  endless : ¬ ends → result = .error .endless

namespace ReadIff

variable {α β : Type} {ends other : Prop} {result : Except Failure α}

/-- What ends in any case. -/
theorem ok (hends : ends) (a : α) : ReadIff ends (.ok a : Except Failure α) :=
  ⟨fun _ => ⟨a, rfl⟩, fun hnot => absurd hends hnot⟩

theorem ofLoop (loop : Option α) : ReadIff (loop.isSome = true) (whenEnded loop) := by
  cases loop with
  | none => exact ⟨nofun, fun _ => rfl⟩
  | some a => exact .ok rfl a

theorem congr (hread : ReadIff ends result) (hsame : ends ↔ other) : ReadIff other result :=
  ⟨fun hother => hread.read (hsame.mpr hother),
    fun hnot => hread.endless fun hends => hnot (hsame.mp hends)⟩

theorem map (hread : ReadIff ends result) (f : α → β) : ReadIff ends (result.map f) := by
  refine ⟨fun hends => ?_, fun hnot => ?_⟩
  · obtain ⟨a, rfl⟩ := hread.read hends
    exact ⟨f a, rfl⟩
  · rw [hread.endless hnot]
    rfl

/-- One reading after the other has an end if both have one. -/
theorem bind {f : α → Except Failure β} (hread : ReadIff ends result)
    (hnext : ∀ a, ReadIff other (f a)) : ReadIff (ends ∧ other) (result.bind f) := by
  by_cases hends : ends
  · obtain ⟨a, rfl⟩ := hread.read hends
    exact (hnext a).congr (and_iff_right hends).symm
  · rw [hread.endless hends]
    exact ⟨fun hboth => absurd hboth.1 hends, fun _ => rfl⟩

/-- The readings of a list have an end if each of them has one. -/
theorem mapM {read : α → Except Failure β} {ends : α → Prop} {list : List α}
    (hread : ∀ a ∈ list, ReadIff (ends a) (read a)) :
    ReadIff (∀ a ∈ list, ends a) (list.mapM read) := by
  induction list with
  | nil => exact .ok (by simp) []
  | cons a rest ih =>
      obtain ⟨ha, hrest⟩ := List.forall_mem_cons.mp hread
      rw [List.mapM_cons, List.forall_mem_cons]
      exact ha.bind fun b => (ih hrest).map (b :: ·)

end ReadIff

/-- The readings of a list give one result for each of its items, in their order. -/
theorem forall₂_of_mapM {α β : Type} {read : α → Except Failure β} {list : List α}
    {results : List β} (hread : list.mapM read = .ok results) :
    List.Forall₂ (fun a b => read a = .ok b) list results := by
  induction list generalizing results with
  | nil =>
      obtain rfl := Except.ok.inj hread
      exact .nil
  | cons a rest ih =>
      rw [List.mapM_cons] at hread
      cases hfirst : read a with
      | error failure =>
          rw [hfirst] at hread
          cases hread
      | ok b =>
          cases hrest : rest.mapM read with
          | error failure =>
              rw [hfirst, hrest] at hread
              cases hread
          | ok more =>
              rw [hfirst, hrest] at hread
              obtain rfl := Except.ok.inj hread
              exact .cons hfirst (ih hrest)

end Phraseology
