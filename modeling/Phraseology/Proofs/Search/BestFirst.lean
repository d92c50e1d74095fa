import Phraseology.Proofs.Search.Ranking
import Phraseology.Proofs.Text.WordOrder

/-!
# Rankings, best first

A ranking takes one of two lists of parses, sorts it and keeps the first parse with each list of
tokens.  Sorting comes first, so what is kept is the cheapest with its tokens
(`exists_mem_distinctFrom`), and no two parses of a ranking are in the same place of the order:
`Precedes` holds between each of them and those behind it (`pairwise_precedes_distinct`).

Tokens count last in the order.  They are compared word by word, which is how the texts of the
parses compare if the tokens have only characters behind the space (`render_lt_iff`).  So of
parses with the same price the one whose text comes first is ranked first (`Ranks`,
`rank_ranks`).

Forced parses are ranked in place of complete ones if one of them skips fewer words than any
complete parse (`prefersForced_iff`).  No forced parses at all are the empty list.
-/

namespace Phraseology.Parse

variable {parse first second : Parse} {parses complete forced : List Parse}
  {met : Std.TreeSet (List String)}

/-! ## The order in words -/

/-- Whether a parse comes before another one: it skips fewer words, or as many with fewer tags, or
the third part decides. -/
def Precedes {α : Type} [LT α] (part : Parse → α) (first second : Parse) : Prop :=
  first.cost.skips < second.cost.skips ∨ first.cost.skips = second.cost.skips ∧
    (first.cost.tags < second.cost.tags ∨ first.cost.tags = second.cost.tags ∧
      part first < part second)

/-- Whether a parse costs no more than another one. -/
def CostsAtMost (first second : Parse) : Prop :=
  first.cost.skips < second.cost.skips ∨
    first.cost.skips = second.cost.skips ∧ first.cost.tags ≤ second.cost.tags

theorem order_eq_lt_iff : order first second = .lt ↔ Precedes (·.tokens) first second := by
  rw [order, Ordering.then_eq_lt, Ordering.then_eq_lt, Nat.compare_eq_lt, Nat.compare_eq_eq,
    Nat.compare_eq_lt, Nat.compare_eq_eq, Text.compare_words_eq_lt_iff]
  rfl

/-- A parse that may stand in front comes before the other unless both have the same tokens. -/
theorem precedes_of_notAfter (hfirst : first.notAfter second = true)
    (htokens : first.tokens ≠ second.tokens) : Precedes (·.tokens) first second := by
  rw [← order_eq_lt_iff]
  cases horder : order first second with
  | lt => rfl
  | eq =>
      rw [order, Ordering.then_eq_eq, Ordering.then_eq_eq,
        Std.LawfulEqCmp.compare_eq_iff_eq (a := first.tokens)] at horder
      exact absurd horder.2.2 htokens
  | gt => rw [notAfter, horder] at hfirst; cases hfirst

/-- Whether the space stands in front of all that a parse puts out. -/
def IsBehindSpace (parse : Parse) : Prop :=
  ∀ token ∈ parse.tokens, Text.IsBehindSpace token

theorem render_lt_iff (hfirst : first.IsBehindSpace) (hsecond : second.IsBehindSpace) :
    first.render < second.render ↔ first.tokens < second.tokens :=
  Text.unwords_lt_unwords_iff hfirst hsecond

theorem precedes_render_iff (hfirst : first.IsBehindSpace) (hsecond : second.IsBehindSpace) :
    Precedes render first second ↔ Precedes (·.tokens) first second := by
  unfold Precedes
  rw [render_lt_iff hfirst hsecond]

/-! ## The first parse with each list of tokens -/

theorem contains_insert_iff {tokens other : List String} :
    (met.insert tokens).contains other = true ↔ other = tokens ∨ met.contains other = true := by
  rw [Std.TreeSet.contains_insert, Bool.or_eq_true, beq_iff_eq,
    Std.LawfulEqCmp.compare_eq_iff_eq, eq_comm]

theorem distinctFrom_sublist : (distinctFrom met parses).Sublist parses := by
  induction parses generalizing met with
  | nil => exact List.Sublist.refl _
  | cons first rest ih =>
      unfold distinctFrom
      split
      · exact ih.cons first
      · exact ih.cons_cons first

theorem not_contains_of_mem_distinctFrom (hmem : parse ∈ distinctFrom met parses) :
    met.contains parse.tokens = false := by
  induction parses generalizing met with
  | nil => cases hmem
  | cons first rest ih =>
      unfold distinctFrom at hmem
      split at hmem
      · exact ih hmem
      · next hnew =>
          rcases List.mem_cons.mp hmem with rfl | hlater
          · exact Bool.eq_false_iff.mpr hnew
          · have hmet := ih hlater
            rw [Bool.eq_false_iff, ne_eq, contains_insert_iff, not_or] at hmet
            exact Bool.eq_false_iff.mpr hmet.2

theorem nodup_tokens_distinctFrom : ((distinctFrom met parses).map (·.tokens)).Nodup := by
  induction parses generalizing met with
  | nil => exact List.nodup_nil
  | cons first rest ih =>
      unfold distinctFrom
      split
      · exact ih
      · refine List.nodup_cons.mpr ⟨fun hmem => ?_, ih⟩
        obtain ⟨parse, hparse, htokens⟩ := List.mem_map.mp hmem
        have hmet := not_contains_of_mem_distinctFrom hparse
        rw [Bool.eq_false_iff, ne_eq, contains_insert_iff] at hmet
        exact hmet (.inl htokens)

/-- Of sorted parses the first with some tokens is kept, unless these were met before. -/
theorem exists_mem_distinctFrom
    (hsorted : parses.Pairwise fun first second => first.notAfter second = true)
    (hmem : parse ∈ parses) (hmet : met.contains parse.tokens = false) :
    ∃ best ∈ distinctFrom met parses, best.tokens = parse.tokens ∧
      best.notAfter parse = true := by
  induction parses generalizing met with
  | nil => cases hmem
  | cons first rest ih =>
      obtain ⟨hfirst, hsorted⟩ := List.pairwise_cons.mp hsorted
      have hinFront : first.notAfter parse = true := by
        rcases List.mem_cons.mp hmem with rfl | hlater
        · exact notAfter_refl parse
        · exact hfirst parse hlater
      by_cases htokens : first.tokens = parse.tokens
      · refine ⟨first, ?_, htokens, hinFront⟩
        rw [distinctFrom, htokens, hmet]
        exact List.mem_cons_self
      · have hlater : parse ∈ rest := by
          rcases List.mem_cons.mp hmem with rfl | hlater
          · exact absurd rfl htokens
          · exact hlater
        rw [distinctFrom]
        split
        · exact ih hsorted hlater hmet
        · have hnew : (met.insert first.tokens).contains parse.tokens = false := by
            rw [Bool.eq_false_iff, ne_eq, contains_insert_iff, hmet]
            simpa using Ne.symm htokens
          obtain ⟨best, hbest, hkept⟩ := ih hsorted hlater hnew
          exact ⟨best, List.mem_cons_of_mem first hbest, hkept⟩

theorem pairwise_precedes_distinct (parses : List Parse) :
    (distinct (sort parses)).Pairwise (Precedes (·.tokens)) := by
  have hsorted : (distinct (sort parses)).Pairwise fun first second =>
      first.notAfter second = true := (pairwise_sort parses).sublist distinctFrom_sublist
  have hdistinct : (distinct (sort parses)).Pairwise fun first second =>
      first.tokens ≠ second.tokens := List.pairwise_map.mp nodup_tokens_distinctFrom
  exact (hsorted.and hdistinct).imp fun h => precedes_of_notAfter h.1 h.2

/-! ## Complete or forced -/

/-- Whether one of some parses skips fewer words than any of others. -/
def SkipFewer (forced complete : List Parse) : Prop :=
  ∃ parse ∈ forced, ∀ other ∈ complete, parse.cost.skips < other.cost.skips

instance (forced complete : List Parse) : Decidable (SkipFewer forced complete) :=
  inferInstanceAs
    (Decidable (∃ parse ∈ forced, ∀ other ∈ complete, parse.cost.skips < other.cost.skips))

theorem prefersForced_iff :
    prefersForced (sort complete) (sort forced) = true ↔ SkipFewer forced complete := by
  cases hforced : sort forced with
  | nil =>
      have hnone := sort_eq_nil_iff.mp hforced
      simp [prefersForced, SkipFewer, hnone]
  | cons best others =>
      have hmem : best ∈ forced := by
        have hmem : best ∈ sort forced := by simp [hforced]
        exact List.mem_mergeSort.mp hmem
      have hbest := skips_le_of_sort_eq_cons hforced
      cases hcomplete : sort complete with
      | nil =>
          have hnone := sort_eq_nil_iff.mp hcomplete
          exact iff_of_true rfl ⟨best, hmem, by simp [hnone]⟩
      | cons first rest =>
          have hfirst := skips_le_of_sort_eq_cons hcomplete
          have hmem' : first ∈ complete := by
            have hmem : first ∈ sort complete := by simp [hcomplete]
            exact List.mem_mergeSort.mp hmem
          rw [prefersForced, decide_eq_true_eq]
          constructor
          · intro hfewer
            exact ⟨best, hmem, fun other hother => Nat.lt_of_lt_of_le hfewer (hfirst other hother)⟩
          · rintro ⟨parse, hparse, hfewer⟩
            exact Nat.lt_of_le_of_lt (hbest parse hparse) (hfewer first hmem')

/-- The parses that are ranked. -/
def chosen (complete forced : List Parse) : List Parse :=
  if SkipFewer forced complete then forced else complete

theorem rank_eq_distinct (complete forced : List Parse) :
    rank complete forced = distinct (sort (chosen complete forced)) := by
  rw [rank, chosen]
  by_cases hfewer : SkipFewer forced complete
  · rw [if_pos (prefersForced_iff.mpr hfewer), if_pos hfewer]
  · rw [if_neg (mt prefersForced_iff.mp hfewer), if_neg hfewer]

/-! ## Rankings -/

/-- A list ranks some parses: it is drawn from them, names each list of tokens once and by a
cheapest parse, and is in order, which is the order of the texts too if the space stands in front
of all that the parses put out.  Then the first of it has the first text of all with its price. -/
structure Ranks (parses ranking : List Parse) : Prop where
  drawn : ∀ parse ∈ ranking, parse ∈ parses
  distinct : (ranking.map (·.tokens)).Nodup
  represented : ∀ parse ∈ parses, ∃ best ∈ ranking, best.tokens = parse.tokens ∧
    best.CostsAtMost parse
  ordered : ranking.Pairwise (Precedes (·.tokens))
  rendered : (∀ parse ∈ parses, parse.IsBehindSpace) → ranking.Pairwise (Precedes render)
  ties : (∀ parse ∈ parses, parse.IsBehindSpace) → ∀ best ∈ ranking.head?, ∀ parse ∈ parses,
    parse.cost = best.cost → ¬ parse.render < best.render

/-- Behind the first of a ranking no parse with its price has a text in front of its own. -/
theorem not_render_lt_of_head? {ranking : List Parse} {best : Parse}
    (hrendered : ranking.Pairwise (Precedes render)) (hbest : best ∈ ranking.head?)
    (hmem : second ∈ ranking) (hcost : second.CostsAtMost best) :
    ¬ second.render < best.render := by
  obtain ⟨rest, rfl⟩ := List.head?_eq_some_iff.mp hbest
  rcases List.mem_cons.mp hmem with rfl | hlater
  · exact String.lt_irrefl _
  · intro hlt
    have hprecedes := List.rel_of_pairwise_cons hrendered hlater
    unfold Precedes CostsAtMost at *
    rcases hprecedes with hskips | ⟨hskips, htags | ⟨htags, hfirst⟩⟩
    · omega
    · omega
    · exact String.lt_irrefl _ (String.lt_trans hlt hfirst)

theorem ranks_distinct_sort (parses : List Parse) : Ranks parses (distinct (sort parses)) := by
  have hdrawn : ∀ parse ∈ distinct (sort parses), parse ∈ parses := fun parse hmem =>
    List.mem_mergeSort.mp (distinctFrom_sublist.subset hmem)
  have hrepresented : ∀ parse ∈ parses, ∃ best ∈ distinct (sort parses),
      best.tokens = parse.tokens ∧ best.CostsAtMost parse := by
    intro parse hmem
    have hmet : (∅ : Std.TreeSet (List String)).contains parse.tokens = false := by simp
    obtain ⟨best, hbest, htokens, hfirst⟩ := exists_mem_distinctFrom (pairwise_sort parses)
      (List.mem_mergeSort.mpr hmem) hmet
    exact ⟨best, hbest, htokens, cost_le_of_notAfter hfirst⟩
  have hrendered : (∀ parse ∈ parses, parse.IsBehindSpace) →
      (distinct (sort parses)).Pairwise (Precedes render) := fun hbehind =>
    (pairwise_precedes_distinct parses).imp_of_mem fun hfirst hsecond =>
      (precedes_render_iff (hbehind _ (hdrawn _ hfirst)) (hbehind _ (hdrawn _ hsecond))).mpr
  refine ⟨hdrawn, nodup_tokens_distinctFrom, hrepresented, pairwise_precedes_distinct parses,
    hrendered, ?_⟩
  intro hbehind best hbest parse hmem hcost
  obtain ⟨kept, hkept, htokens, hatMost⟩ := hrepresented parse hmem
  have hsame : parse.render = kept.render := by rw [render, render, htokens]
  rw [hsame]
  refine not_render_lt_of_head? (hrendered hbehind) hbest hkept ?_
  rwa [CostsAtMost, hcost] at hatMost

/-- What is ranked are the forced parses if one of them skips fewer words than any complete one,
and the complete parses otherwise.  They are ranked best first, and where the space stands in
front of all that they put out, their tokens are ordered like their texts. -/
theorem rank_ranks (complete forced : List Parse) :
    (SkipFewer forced complete → Ranks forced (rank complete forced)) ∧
      (¬ SkipFewer forced complete → Ranks complete (rank complete forced)) ∧
      ∀ first second : Parse, first.IsBehindSpace → second.IsBehindSpace →
        (first.tokens < second.tokens ↔ first.render < second.render) := by
  have hranks := ranks_distinct_sort (chosen complete forced)
  rw [← rank_eq_distinct] at hranks
  refine ⟨fun hfewer => ?_, fun hfewer => ?_, fun first second hfirst hsecond => ?_⟩
  · rwa [chosen, if_pos hfewer] at hranks
  · rwa [chosen, if_neg hfewer] at hranks
  · exact (render_lt_iff hfirst hsecond).symm

end Phraseology.Parse
