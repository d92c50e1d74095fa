import Phraseology.Proofs.Spoken.Ending

/-!
# Spoken numbers one after the other

A number has a written form if the loops over its words for repetitions end, and then it is what
one pass for each expansion leaves (`number?_eq`).

The expansions of a spoken number go through the whole list, each in what the one before it
has left, and look one word ahead, or two behind `thousand`.  A digit, a letter, the point
and a teen take nothing from what follows them.  So at such a word each expansion falls into
two: what it makes of the words up to there does not depend on the words behind it, and it
makes of those what it makes of them alone (`CutBehind`).

Two things reach over the cut all the same.  Behind `thousand` and one more word an expansion
looks for `hundred`, and a number that starts with `hundred` or `thousand` is given a one.
Where the second list starts with neither, the written form of both is that of the one
followed by that of the other, and there is one if both of them have one (`number_append`).
-/

namespace Phraseology.Spoken

/-- Whether a word takes nothing from the words behind it. -/
def NumberWord.isFinal : NumberWord → Bool
  | .symbol _ => true
  | .teen _ => true
  | _ => false

variable {expand other : List NumberWord → List NumberWord} {word : NumberWord}
  {before after ws : List NumberWord} {us vs : List String}

/-! ## Cuts -/

/-- What an expansion makes of the words up to some word does not depend on what follows, and
ends with this word. -/
def CutBehind (word : NumberWord) (expand : List NumberWord → List NumberWord) : Prop :=
  ∀ before, ∃ front, ∀ after, expand (before ++ word :: after) = front ++ word :: expand after

theorem CutBehind.comp (hother : CutBehind word other) (hexpand : CutBehind word expand) :
    CutBehind word (other ∘ expand) := by
  intro before
  obtain ⟨front, hfront⟩ := hexpand before
  obtain ⟨whole, hwhole⟩ := hother front
  refine ⟨whole, fun after => ?_⟩
  rw [Function.comp_apply, hfront, hwhole]
  rfl

/-- An expansion that puts something in the place of each word, given the next one. -/
structure LooksAhead (expand : List NumberWord → List NumberWord)
    (put : NumberWord → Option NumberWord → List NumberWord) : Prop where
  nil : expand [] = []
  cons (word : NumberWord) (rest : List NumberWord) :
    expand (word :: rest) = put word rest.head? ++ expand rest

/-- Such an expansion is cut behind each word that it keeps. -/
theorem LooksAhead.cutBehind {put : NumberWord → Option NumberWord → List NumberWord}
    (hlooks : LooksAhead expand put) (hkeeps : ∀ next, put word next = [word]) :
    CutBehind word expand := by
  intro before
  induction before with
  | nil =>
      refine ⟨[], fun after => ?_⟩
      rw [List.nil_append, hlooks.cons, hkeeps]
      rfl
  | cons first before ih =>
      obtain ⟨front, hfront⟩ := ih
      refine ⟨put first (before ++ [word]).head? ++ front, fun after => ?_⟩
      have hnext : (before ++ word :: after).head? = (before ++ [word]).head? := by
        cases before <;> rfl
      rw [List.cons_append, hlooks.cons, hnext, hfront, List.append_assoc]

/-- Such an expansion passes over words that it keeps. -/
theorem LooksAhead.append {put : NumberWord → Option NumberWord → List NumberWord}
    (hlooks : LooksAhead expand put) (hkeeps : ∀ word ∈ ws, ∀ next, put word next = [word])
    (after : List NumberWord) : expand (ws ++ after) = ws ++ expand after := by
  induction ws with
  | nil => rfl
  | cons word ws ih =>
      obtain ⟨hword, hws⟩ := List.forall_mem_cons.mp hkeeps
      rw [List.cons_append, hlooks.cons, hword, ih hws]
      rfl

/-! ## The expansions -/

theorem looksAhead_expandHundreds :
    LooksAhead expandHundreds fun word next =>
      if word = .hundred then List.replicate (openPlaces 2 next.toList) zero else [word] where
  nil := rfl
  cons word rest := by
    cases word with
    | hundred => cases rest <;> rfl
    | _ => rfl

theorem looksAhead_repeats (count : Nat) :
    LooksAhead (Rewriting.repeats count).apply fun word next =>
      if word = .times count then repetitions count next.toList else [word] where
  nil := rfl
  cons word rest := by
    by_cases hword : word = .times count
    · subst hword
      cases rest <;> simp [Rewriting.apply, Rewriting.repeats, repetitions]
    · rw [apply_repeats_of_ne hword, if_neg hword]
      rfl

theorem looksAhead_expandTens (digit : Char) :
    LooksAhead (expandTens digit) fun word next =>
      if word = .tens digit then
        .symbol digit :: (if leavesUnitOpen next.toList then [zero] else [])
      else [word] where
  nil := rfl
  cons word rest := by
    rw [expandTens]
    by_cases hword : word = .tens digit
    · cases rest <;> simp [hword, leavesUnitOpen]
    · simp [hword]

theorem cutBehind_expandHundreds (hfinal : word.isFinal = true) : CutBehind word expandHundreds :=
  looksAhead_expandHundreds.cutBehind fun _ => if_neg (by rintro rfl; cases hfinal)

theorem cutBehind_repeats (hfinal : word.isFinal = true) (count : Nat) :
    CutBehind word (Rewriting.repeats count).apply :=
  (looksAhead_repeats count).cutBehind fun _ => if_neg (by rintro rfl; cases hfinal)

theorem cutBehind_expandTens (hfinal : word.isFinal = true) (digit : Char) :
    CutBehind word (expandTens digit) :=
  (looksAhead_expandTens digit).cutBehind fun _ => if_neg (by rintro rfl; cases hfinal)

/-- The tens words are replaced one after the other, and each of these steps is cut. -/
theorem cutBehind_expandAllTens (hfinal : word.isFinal = true) : CutBehind word expandAllTens := by
  have hfold : ∀ entries : List (String × Char), CutBehind word fun ws =>
      entries.foldl (fun ws entry => expandTens entry.2 ws) ws := by
    intro entries
    induction entries with
    | nil => exact fun before => ⟨before, fun _ => rfl⟩
    | cons entry entries ih => exact ih.comp (cutBehind_expandTens hfinal entry.2)
  exact hfold tensWords

theorem cutBehind_expandBelowHundred (hfinal : word.isFinal = true) :
    CutBehind word expandBelowHundred :=
  (cutBehind_expandAllTens hfinal).comp <|
    (cutBehind_repeats hfinal 3).comp (cutBehind_repeats hfinal 2)

theorem openPlaces_append (hws : ws ≠ []) (width : Nat) (after : List NumberWord) :
    openPlaces width (ws ++ after) = openPlaces width ws := by
  cases ws with
  | nil => exact absurd rfl hws
  | cons next ws => rfl

/-- Behind `thousand` two words are looked at, and the second may be behind the cut. -/
theorem continuesWithHundred_append (hws : ws ≠ []) (hafter : after.head? ≠ some .hundred) :
    continuesWithHundred (ws ++ after) = continuesWithHundred ws := by
  cases ws with
  | nil => exact absurd rfl hws
  | cons first ws =>
      cases ws with
      | nil =>
          cases after with
          | nil => rfl
          | cons second after =>
              have hsecond : second ≠ .hundred := fun h => hafter (by rw [h]; rfl)
              cases second with
              | hundred => exact absurd rfl hsecond
              | _ => rfl
      | cons second ws => cases second <;> rfl

theorem expandThousands_cons_of_ne (hword : word ≠ .thousand) (rest : List NumberWord) :
    expandThousands (word :: rest) = word :: expandThousands rest := by
  cases word with
  | thousand => exact absurd rfl hword
  | _ => rfl

theorem exists_front_expandThousands (hfinal : word.isFinal = true) (before : List NumberWord) :
    ∃ front, ∀ after : List NumberWord, after.head? ≠ some .hundred →
      expandThousands (before ++ word :: after) = front ++ word :: expandThousands after := by
  induction before with
  | nil =>
      have hword : word ≠ .thousand := by
        rintro rfl
        cases hfinal
      exact ⟨[], fun after _ => expandThousands_cons_of_ne hword after⟩
  | cons first before ih =>
      obtain ⟨front, hfront⟩ := ih
      by_cases hfirst : first = .thousand
      · subst hfirst
        refine ⟨(if continuesWithHundred (before ++ [word]) then []
          else List.replicate (openPlaces 3 (before ++ [word])) zero) ++ front,
          fun after hafter => ?_⟩
        have hsplit : before ++ word :: after = (before ++ [word]) ++ after := by simp
        rw [List.cons_append, expandThousands, hfront after hafter, List.append_assoc, hsplit,
          continuesWithHundred_append (by simp) hafter, openPlaces_append (by simp)]
      · refine ⟨first :: front, fun after hafter => ?_⟩
        rw [List.cons_append, expandThousands_cons_of_ne hfirst, hfront after hafter]
        rfl

/-! ## Whole numbers -/

/-- Whether some words stand for a number of their own also behind others: they do not start with
`hundred` or `thousand`. -/
def StartAfresh (ws : List NumberWord) : Prop :=
  ∀ first ∈ ws.head?, first ≠ .hundred ∧ first ≠ .thousand

/-- A one is restored, if at all, in front of the first word. -/
theorem exists_restoreOne (hfinal : word.isFinal = true) (before : List NumberWord) :
    ∃ front, ∀ after, restoreOne (before ++ word :: after) = front ++ word :: after := by
  cases before with
  | nil =>
      refine ⟨[], fun after => ?_⟩
      cases word with
      | symbol c => rfl
      | teen d => rfl
      | _ => cases hfinal
  | cons first before =>
      cases first with
      | hundred => exact ⟨.symbol '1' :: .hundred :: before, fun _ => rfl⟩
      | thousand => exact ⟨.symbol '1' :: .thousand :: before, fun _ => rfl⟩
      | _ => exact ⟨_ :: before, fun _ => rfl⟩

/-- A number that does not start with `hundred` or `thousand` is expanded as it is. -/
theorem restoreOne_of_startAfresh (hafresh : StartAfresh ws) : restoreOne ws = ws := by
  cases ws with
  | nil => rfl
  | cons first rest =>
      obtain ⟨hhundred, hthousand⟩ := hafresh first rfl
      cases first with
      | hundred => exact absurd rfl hhundred
      | thousand => exact absurd rfl hthousand
      | _ => rfl

/-- Up to a final word the multipliers are expanded as if nothing followed, and behind it as if
nothing stood in front. -/
theorem exists_expandMultipliers (hfinal : word.isFinal = true) (before : List NumberWord) :
    ∃ front, ∀ after, StartAfresh after →
      expandMultipliers (before ++ word :: after) = front ++ word :: expandMultipliers after := by
  obtain ⟨restored, hrestored⟩ := exists_restoreOne hfinal before
  obtain ⟨filled, hfilled⟩ := exists_front_expandThousands hfinal restored
  obtain ⟨front, hfront⟩ := cutBehind_expandHundreds hfinal filled
  refine ⟨front, fun after hafresh => ?_⟩
  have hafter : after.head? ≠ some .hundred := fun hhundred => (hafresh .hundred hhundred).1 rfl
  rw [expandMultipliers, hrestored, hfilled after hafter, hfront, expandMultipliers,
    restoreOne_of_startAfresh hafresh]

theorem expandMultipliers_append (hfinal : word.isFinal = true) (hafresh : StartAfresh after)
    (before : List NumberWord) :
    ∃ front, expandMultipliers (before ++ [word]) = front ++ [word] ∧
      expandMultipliers ((before ++ [word]) ++ after) =
        (front ++ [word]) ++ expandMultipliers after := by
  obtain ⟨front, hfront⟩ := exists_expandMultipliers hfinal before
  have hnone : StartAfresh [] := by simp [StartAfresh]
  refine ⟨front, hfront [] hnone, ?_⟩
  rw [List.append_assoc, List.singleton_append, hfront after hafresh, List.append_assoc,
    List.singleton_append]

theorem expandPass_nil : expandPass [] = [] := rfl

/-- Behind a final word the expansions of what follows are those of what follows alone. -/
theorem expandPass_append (hfinal : word.isFinal = true) (hafresh : StartAfresh after)
    (before : List NumberWord) :
    expandPass ((before ++ [word]) ++ after) =
      expandPass (before ++ [word]) ++ expandPass after := by
  obtain ⟨filled, halone, hboth⟩ := expandMultipliers_append hfinal hafresh before
  obtain ⟨front, hfront⟩ := cutBehind_expandBelowHundred hfinal filled
  have hend : expandBelowHundred [] = [] := rfl
  rw [expandPass, hboth, List.append_assoc, List.singleton_append, hfront, expandPass, halone,
    hfront, hend, expandPass, ← List.flatMap_append, List.append_assoc, List.singleton_append]

theorem numberWords_append (us vs : List String) :
    numberWords (us ++ vs) = numberWords us ++ numberWords vs := by
  unfold numberWords
  rw [List.filterMap_append, List.filter_append]

/-- A final word clashes with none behind it. -/
theorem agree_of_isFinal (hfinal : word.isFinal = true) (next : NumberWord) : Agree word next := by
  refine agree_of_not_isTimes ?_ next
  cases word with
  | times count => cases hfinal
  | _ => rfl

section Append

variable (hlast : ∀ last ∈ (numberWords us).getLast?, last.isFinal = true)
  (hfirst : numberWords us ≠ [] → StartAfresh (numberWords vs))

include hlast hfirst

theorem passText_append : passText (us ++ vs) = passText us ++ passText vs := by
  have hexpand : expandPass (numberWords us ++ numberWords vs) =
      expandPass (numberWords us) ++ expandPass (numberWords vs) := by
    rcases List.eq_nil_or_concat (numberWords us) with hnone | ⟨before, last, hus⟩
    · rw [hnone, List.nil_append, expandPass_nil, List.nil_append]
    · have hfinal : last.isFinal = true := hlast last (by simp [hus])
      have hafresh := hfirst (by simp [hus])
      rw [hus, List.concat_eq_append, expandPass_append hfinal hafresh]
  have hchars : passChars (us ++ vs) = passChars us ++ passChars vs := by
    unfold passChars
    rw [numberWords_append, hexpand, List.filterMap_append]
  rw [passText, passText, passText, hchars, String.ofList_append]

/-- The loops end for both numbers together if they end for each of them. -/
theorem numberEnds_append_iff : NumberEnds (us ++ vs) ↔ NumberEnds us ∧ NumberEnds vs := by
  unfold NumberEnds wholeWords
  rw [numberWords_append]
  rcases List.eq_nil_or_concat (numberWords us) with hnone | ⟨before, last, hus⟩
  · rw [hnone]
    exact (and_iff_right .nil).symm
  · have hfinal : last.isFinal = true := hlast last (by simp [hus])
    have hafresh := hfirst (by simp [hus])
    obtain ⟨front, halone, hboth⟩ := expandMultipliers_append hfinal hafresh before
    rw [hus, List.concat_eq_append, halone, hboth, List.isChain_append]
    simp [agree_of_isFinal hfinal]

end Append

/-- **Numbers are put together.**  If a number ends with a digit, a letter, the point or a teen and
one behind it does not go on with `hundred` or `thousand`, the written form of both is that of the
first followed by that of the second; there is one if both have one.  Each of them has one if no
two words for repetitions stand together in it. -/
theorem number_append (hlast : ∀ last ∈ (numberWords us).getLast?, last.isFinal = true)
    (hfirst : numberWords us ≠ [] →
      ∀ first ∈ (numberWords vs).head?, first ≠ .hundred ∧ first ≠ .thousand) :
    (number? (us ++ vs) =
        (number? us).bind fun front => (number? vs).map fun back => front ++ back) ∧
      (RepeatsApart us → RepeatsApart vs → ∃ front back, number? us = some front ∧
        number? vs = some back ∧ number? (us ++ vs) = some (front ++ back)) := by
  have hboth : number? (us ++ vs) =
      (number? us).bind fun front => (number? vs).map fun back => front ++ back := by
    rw [number?_eq, number?_eq, number?_eq, if_congr (numberEnds_append_iff hlast hfirst) rfl rfl,
      passText_append hlast hfirst]
    by_cases hus : NumberEnds us
    · by_cases hvs : NumberEnds vs <;> simp [hus, hvs]
    · simp [hus]
  refine ⟨hboth, fun hus hvs => ?_⟩
  obtain ⟨front, hfront⟩ := Option.isSome_iff_exists.mp (isSome_number?_iff.mpr hus.numberEnds)
  obtain ⟨back, hback⟩ := Option.isSome_iff_exists.mp (isSome_number?_iff.mpr hvs.numberEnds)
  refine ⟨front, back, hfront, hback, ?_⟩
  rw [hboth, hfront, hback]
  rfl

theorem number_append_elevenTwenty :
    number? (["triple", "five", "and", "eleven"] ++ ["and", "twenty", "thousand"]) =
      some ("55511" ++ "20000") := by
  have hlast : ∀ last ∈ (numberWords ["triple", "five", "and", "eleven"]).getLast?,
      last.isFinal = true := by decide
  have hfirst : ∀ first ∈ (numberWords ["and", "twenty", "thousand"]).head?,
      first ≠ .hundred ∧ first ≠ .thousand := by decide
  have htriple : number? ["triple", "five", "and", "eleven"] = some "55511" := by decide
  have htwenty : number? ["and", "twenty", "thousand"] = some "20000" := by decide
  obtain ⟨front, back, hfront, hback, hboth⟩ :=
    (number_append hlast fun _ => hfirst).2 (by decide) (by decide)
  rw [htriple] at hfront
  rw [htwenty] at hback
  rw [hboth, ← Option.some.inj hfront, ← Option.some.inj hback]

end Phraseology.Spoken
