import Phraseology.Search.Parse

/-!
# The ranking of parses

Parses are ranked by their skips, their tags and their tokens, in this order.  A
ranking holds no other parses than those that were ranked (`Parse.mem_of_mem_rank`).  Its
first parse stands after none of the complete ones if nothing was closed by force
(`Parse.exists_best_of_mem`), and has no more skips than any parse in any case
(`Parse.exists_best_of_rank`).
-/

namespace Phraseology.Parse

/-! ## The order -/

theorem order_eq_compareLex :
    order = compareLex (compareOn (·.cost.skips))
      (compareLex (compareOn (·.cost.tags)) (compareOn (·.tokens))) := rfl

instance : Std.TransCmp order := by
  rw [order_eq_compareLex]
  infer_instance

variable {first second third parse : Parse}

theorem notAfter_refl (parse : Parse) : parse.notAfter parse = true := by
  have hself : order parse parse = .eq := Std.ReflCmp.compare_self
  rw [notAfter, hself]
  rfl

theorem notAfter_trans (hfirst : first.notAfter second = true)
    (hsecond : second.notAfter third = true) : first.notAfter third = true :=
  Std.TransCmp.isLE_trans hfirst hsecond

theorem notAfter_total (first second : Parse) :
    (first.notAfter second || second.notAfter first) = true := by
  have hswap : order second first = (order first second).swap := Std.OrientedCmp.eq_swap
  rw [notAfter, notAfter, hswap]
  cases order first second <;> rfl

/-- A parse with fewer skips stands in front. -/
theorem notAfter_of_skips_lt (hskips : first.cost.skips < second.cost.skips) :
    first.notAfter second = true := by
  have hlt : compare first.cost.skips second.cost.skips = .lt := Nat.compare_eq_lt.mpr hskips
  rw [notAfter, order, hlt]
  rfl

/-- A parse that stands in front does not cost more. -/
theorem cost_le_of_notAfter (hfirst : first.notAfter second = true) :
    first.cost.skips < second.cost.skips ∨
      first.cost.skips = second.cost.skips ∧ first.cost.tags ≤ second.cost.tags := by
  rw [notAfter, order, Ordering.isLE_then_iff_or, Ordering.isLE_then_iff_or,
    Nat.compare_eq_lt, Nat.compare_eq_eq, Nat.compare_eq_lt, Nat.compare_eq_eq] at hfirst
  omega

/-- Two parses that stand in front of each other cost the same and have the same tokens. -/
theorem eq_of_notAfter (hfirst : first.notAfter second = true)
    (hsecond : second.notAfter first = true) :
    first.cost = second.cost ∧ first.tokens = second.tokens := by
  have horder : order first second = .eq := Std.OrientedCmp.isLE_antisymm hfirst hsecond
  rw [order, Ordering.then_eq_eq, Ordering.then_eq_eq, Nat.compare_eq_eq, Nat.compare_eq_eq,
    Std.LawfulEqCmp.compare_eq_iff_eq] at horder
  obtain ⟨hskips, htags, htokens⟩ := horder
  refine ⟨?_, htokens⟩
  calc first.cost = ⟨first.cost.skips, first.cost.tags⟩ := rfl
    _ = ⟨second.cost.skips, second.cost.tags⟩ := by rw [hskips, htags]
    _ = second.cost := rfl

/-- The skipped words do not count in the order. -/
theorem notAfter_congr_right (hcost : second.cost = third.cost)
    (htokens : second.tokens = third.tokens) : first.notAfter second = first.notAfter third := by
  rw [notAfter, notAfter, order, order, hcost, htokens]

/-! ## Ranked parses -/

variable {complete forced parses : List Parse}

theorem mem_of_mem_distinctFrom {met : Std.TreeSet (List String)}
    (hmem : parse ∈ distinctFrom met parses) : parse ∈ parses := by
  induction parses generalizing met with
  | nil => simp [distinctFrom] at hmem
  | cons first rest ih =>
      unfold distinctFrom at hmem
      split at hmem
      · exact List.mem_cons_of_mem _ (ih hmem)
      · rcases List.mem_cons.mp hmem with rfl | hmem
        · exact List.mem_cons_self ..
        · exact List.mem_cons_of_mem _ (ih hmem)

/-- A ranking holds no parses but those that were ranked. -/
theorem mem_of_mem_rank (hmem : parse ∈ rank complete forced) :
    parse ∈ complete ∨ parse ∈ forced := by
  have hsorted := mem_of_mem_distinctFrom hmem
  split at hsorted
  · exact Or.inr (List.mem_mergeSort.mp hsorted)
  · exact Or.inl (List.mem_mergeSort.mp hsorted)

theorem pairwise_sort (parses : List Parse) :
    (sort parses).Pairwise fun first second => first.notAfter second = true := by
  apply List.pairwise_mergeSort
  · intro first second third
    exact notAfter_trans
  · exact notAfter_total

/-- The first of the sorted parses stands after none of them. -/
theorem notAfter_of_sort_eq_cons {best : Parse} {others : List Parse}
    (hsort : sort parses = best :: others) (hmem : parse ∈ parses) :
    best.notAfter parse = true := by
  have hsorted := pairwise_sort parses
  have hmemSorted : parse ∈ sort parses := List.mem_mergeSort.mpr hmem
  rw [hsort] at hsorted hmemSorted
  rcases List.mem_cons.mp hmemSorted with rfl | hlater
  · exact notAfter_refl parse
  · exact List.rel_of_pairwise_cons hsorted hlater

theorem skips_le_of_sort_eq_cons {best : Parse} {others : List Parse}
    (hsort : sort parses = best :: others) :
    ∀ parse ∈ parses, best.cost.skips ≤ parse.cost.skips := by
  intro parse hmem
  have hcost := cost_le_of_notAfter (notAfter_of_sort_eq_cons hsort hmem)
  omega

theorem sort_eq_nil_iff : sort parses = [] ↔ parses = [] := by
  rw [← List.length_eq_zero_iff, sort, List.length_mergeSort, List.length_eq_zero_iff]

theorem exists_distinct_cons (best : Parse) (others : List Parse) :
    ∃ rest, distinct (best :: others) = best :: rest :=
  ⟨distinctFrom ((∅ : Std.TreeSet (List String)).insert best.tokens) others, rfl⟩

/-- The first of the complete parses stands after none of them. -/
theorem exists_best_of_mem (hmem : parse ∈ complete) :
    ∃ best rest, rank complete [] = best :: rest ∧ best.notAfter parse = true := by
  have hrank : rank complete [] = distinct (sort complete) := by
    simp [rank, sort, prefersForced]
  cases hcases : sort complete with
  | nil =>
      rw [sort_eq_nil_iff.mp hcases] at hmem
      exact absurd hmem (by simp)
  | cons best others =>
      obtain ⟨rest, hrest⟩ := exists_distinct_cons best others
      exact ⟨best, rest, by rw [hrank, hcases, hrest], notAfter_of_sort_eq_cons hcases hmem⟩

/-- The first of ranked parses has no more skips than any that were ranked, complete or
forced. -/
theorem exists_best_of_rank (hsome : complete ≠ [] ∨ forced ≠ []) :
    ∃ best rest, rank complete forced = best :: rest ∧
      (∀ parse ∈ complete, best.cost.skips ≤ parse.cost.skips) ∧
      ∀ parse ∈ forced, best.cost.skips ≤ parse.cost.skips := by
  unfold rank
  simp only
  cases hcomplete : sort complete with
  | nil =>
      -- without a complete parse the forced ones count
      have hnone := sort_eq_nil_iff.mp hcomplete
      cases hforced : sort forced with
      | nil =>
          have hneither := sort_eq_nil_iff.mp hforced
          exact absurd hsome (by simp [hnone, hneither])
      | cons best others =>
          obtain ⟨rest, hrest⟩ := exists_distinct_cons best others
          refine ⟨best, rest, by simp [prefersForced, hrest], by simp [hnone], ?_⟩
          exact skips_le_of_sort_eq_cons hforced
  | cons first others =>
      have hfirst := skips_le_of_sort_eq_cons hcomplete
      cases hforced : sort forced with
      | nil =>
          have hnone := sort_eq_nil_iff.mp hforced
          obtain ⟨rest, hrest⟩ := exists_distinct_cons first others
          exact ⟨first, rest, by simp [prefersForced, hrest], hfirst, by simp [hnone]⟩
      | cons best others' =>
          have hbest := skips_le_of_sort_eq_cons hforced
          by_cases hfewer : best.cost.skips < first.cost.skips
          · obtain ⟨rest, hrest⟩ := exists_distinct_cons best others'
            refine ⟨best, rest, by simp [prefersForced, hfewer, hrest], ?_, hbest⟩
            intro parse hmem
            exact Nat.le_trans (Nat.le_of_lt hfewer) (hfirst parse hmem)
          · obtain ⟨rest, hrest⟩ := exists_distinct_cons first others
            refine ⟨first, rest, by simp [prefersForced, hfewer, hrest], hfirst, ?_⟩
            intro parse hmem
            exact Nat.le_trans (Nat.le_of_not_lt hfewer) (hbest parse hmem)

end Phraseology.Parse
