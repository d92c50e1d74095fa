import Phraseology.Proofs.Decimal.Numeral
import Phraseology.Proofs.Spoken.Rewriting
import Phraseology.Spoken.Designator

/-!
# Words that nothing is written for

Most words have no part in a number.  Of those that have, `and` and the words for repetitions
stand for nothing by themselves (`isSilent`).  A number is written as soon as one of the others
is spoken: whatever pass replaces it puts in a digit, or finds behind it another word that
counts (`Rewriting.Shows`), and in the end only symbols count.  So nothing is written exactly if
all words are silent (`eq_empty_iff_of_number?`), and likewise for frequencies, runways and
waypoints, where other words have a part.
-/

namespace Phraseology.Spoken

/-- Whether a word counts in a number. -/
def NumberWord.counts : NumberWord → Bool
  | .times _ => false
  | .and => false
  | _ => true

/-- Whether nothing is written for a word by itself. -/
def isSilent (word : String) : Bool :=
  (NumberWord.ofWord? word).all (!·.counts)

variable {words : List String} {text : String} {word : NumberWord} {ws : List NumberWord}

/-! ## Passes -/

namespace Rewriting

variable {r : Rewriting} {rs : List Rewriting} {rest : List NumberWord}

theorem mem_apply (hconserves : r.Conserves) (hword : word ∈ r.apply ws) :
    word.isDigit = true ∨ word ∈ ws := by
  induction ws with
  | nil => exact .inr hword
  | cons first rest ih =>
      unfold apply at hword
      split at hword
      · rcases List.mem_append.mp hword with hput | hlater
        · exact (hconserves rest word hput).imp_right (List.mem_cons_of_mem first)
        · exact (ih hlater).imp_right (List.mem_cons_of_mem first)
      · rcases List.mem_cons.mp hword with rfl | hlater
        · exact .inr List.mem_cons_self
        · exact (ih hlater).imp_right (List.mem_cons_of_mem first)

theorem isDigit_or_ne_kind_of_mem_apply (hdigits : r.PutsDigits) (hword : word ∈ r.apply ws) :
    word.isDigit = true ∨ word ≠ r.kind := by
  induction ws with
  | nil => cases hword
  | cons first rest ih =>
      unfold apply at hword
      split at hword
      · rcases List.mem_append.mp hword with hput | hlater
        · exact .inl (hdigits rest word hput)
        · exact ih hlater
      · next hfirst =>
          rcases List.mem_cons.mp hword with rfl | hlater
          · exact .inr hfirst
          · exact ih hlater

/-- What the passes leave is a digit, or was there and is of none of the kinds that leave
digits. -/
theorem mem_applyAll (hconserves : ∀ r ∈ rs, r.Conserves) (hword : word ∈ applyAll rs ws) :
    word.isDigit = true ∨ word ∈ ws ∧ ∀ r ∈ rs, r.PutsDigits → word ≠ r.kind := by
  induction rs generalizing ws with
  | nil => exact .inr ⟨hword, by simp⟩
  | cons r rs ih =>
      obtain ⟨hr, hrs⟩ := List.forall_mem_cons.mp hconserves
      rcases ih hrs hword with hdigit | ⟨hmid, hlater⟩
      · exact .inl hdigit
      · rcases mem_apply hr hmid with hdigit | hws
        · exact .inl hdigit
        · by_cases hdigit : word.isDigit = true
          · exact .inl hdigit
          · refine .inr ⟨hws, List.forall_mem_cons.mpr ⟨fun hputs => ?_, hlater⟩⟩
            exact (isDigit_or_ne_kind_of_mem_apply hputs hmid).resolve_left hdigit

/-! ## What counts -/

/-- Whether something that counts takes the place of a word that counts, or stands behind it. -/
def Shows (r : Rewriting) : Prop :=
  r.kind.counts = true → ∀ rest, ∃ word ∈ r.put rest ++ rest, word.counts = true

theorem exists_counts_apply (hshows : r.Shows) (hws : ∃ word ∈ ws, word.counts = true) :
    ∃ word ∈ r.apply ws, word.counts = true := by
  induction ws with
  | nil => simp at hws
  | cons first rest ih =>
      have hrest : (∃ word ∈ rest, word.counts = true) →
          ∃ word ∈ r.apply (first :: rest), word.counts = true := by
        intro hrest
        obtain ⟨word, hword, hcounts⟩ := ih hrest
        refine ⟨word, ?_, hcounts⟩
        unfold apply
        split
        · exact List.mem_append_right _ hword
        · exact List.mem_cons_of_mem first hword
      obtain ⟨word, hword, hcounts⟩ := hws
      rcases List.mem_cons.mp hword with rfl | hword
      · -- a word that counts is kept, or the pass shows something for it
        by_cases hkind : word = r.kind
        · obtain ⟨other, hother, hshown⟩ := hshows (hkind ▸ hcounts) rest
          rcases List.mem_append.mp hother with hput | hlater
          · refine ⟨other, ?_, hshown⟩
            rw [apply, if_pos hkind]
            exact List.mem_append_left _ hput
          · exact hrest ⟨other, hlater, hshown⟩
        · refine ⟨word, ?_, hcounts⟩
          rw [apply, if_neg hkind]
          exact List.mem_cons_self
      · exact hrest ⟨word, hword, hcounts⟩

theorem exists_counts_replicate {n : Nat} (hn : n ≠ 0) (rest : List NumberWord) :
    ∃ word ∈ List.replicate n zero ++ rest, word.counts = true :=
  ⟨zero, List.mem_append_left _ (List.mem_replicate.mpr ⟨hn, rfl⟩), rfl⟩

/-- Two digits behind a multiplier fill two places, so with a third one there are zeros left. -/
theorem openPlaces_ne_zero {width : Nat} (hwidth : 2 ≤ width)
    (hrest : 3 ≤ width ∨ ∀ next ∈ rest.head?, next.isTwoDigits = false) :
    openPlaces width rest ≠ 0 := by
  cases rest with
  | nil =>
      rw [openPlaces]
      omega
  | cons next more =>
      rw [openPlaces]
      split_ifs with htwo
      · rcases hrest with hthree | hnone
        · omega
        · simp [hnone next rfl] at htwo
      · omega
      · omega

theorem shows_thousands : thousands.Shows := by
  intro _ rest
  dsimp only [thousands]
  split
  · next hcontinues =>
      match rest with
      | [] => cases hcontinues
      | [_] => cases hcontinues
      | _ :: second :: _ =>
          cases second with
          | hundred => exact ⟨.hundred, by simp, rfl⟩
          | _ => cases hcontinues
  · -- three places are open, more than two digits fill
    exact exists_counts_replicate (openPlaces_ne_zero (by decide) (.inl le_rfl)) rest

/-- No zero is left by `hundred` only in front of two digits, which count. -/
theorem shows_hundreds : hundreds.Shows := by
  intro _ rest
  dsimp only [hundreds]
  by_cases hnone : ∀ next ∈ rest.head?, next.isTwoDigits = false
  · exact exists_counts_replicate (openPlaces_ne_zero le_rfl (.inr hnone)) rest
  · push Not at hnone
    obtain ⟨next, hnext, htwo⟩ := hnone
    refine ⟨next, List.mem_append_right _ (List.mem_of_mem_head? hnext), ?_⟩
    cases next with
    | teen _ => rfl
    | tens _ => rfl
    | _ => exact absurd rfl htwo

theorem shows_of_mem_rewritings (hr : r ∈ rewritings) : r.Shows := by
  obtain rfl | rfl | ⟨count, rfl⟩ | ⟨entry, hentry, rfl⟩ | ⟨entry, hentry, rfl⟩ :=
    mem_rewritings_cases hr
  · exact shows_thousands
  · exact shows_hundreds
  · intro hcounts
    cases hcounts
  · exact fun _ rest => ⟨.symbol entry.2, by simp [tens], rfl⟩
  · exact fun _ rest => ⟨.symbol entry.2, by simp [teen], rfl⟩

/-! ## What does not count -/

theorem putsDigits_of_counts (hr : r ∈ rewritings) (hkind : r.kind.counts = true) :
    r.PutsDigits := by
  obtain rfl | rfl | ⟨count, rfl⟩ | ⟨entry, hentry, rfl⟩ | ⟨entry, hentry, rfl⟩ :=
    mem_rewritings_cases hr
  · exact putsDigits_thousands
  · exact putsDigits_hundreds
  · cases hkind
  · exact putsDigits_tens (isDigit_of_mem_tensWords entry hentry)
  · exact putsDigits_teen (isDigit_of_mem_teens entry hentry)

theorem exists_eq_repeats_of_not_counts (hr : r ∈ rewritings) (hkind : ¬ r.kind.counts = true) :
    ∃ count, r = repeats count := by
  obtain rfl | rfl | ⟨count, rfl⟩ | ⟨entry, -, rfl⟩ | ⟨entry, -, rfl⟩ := mem_rewritings_cases hr
  · exact absurd rfl hkind
  · exact absurd rfl hkind
  · exact ⟨count, rfl⟩
  · exact absurd rfl hkind
  · exact absurd rfl hkind

/-- Where nothing counts, only repetitions take place, and they put in what is there. -/
theorem exists_counts_of_apply (hr : r ∈ rewritings)
    (hshown : ∃ word ∈ r.apply ws, word.counts = true) :
    ∃ word ∈ ws, word.counts = true := by
  induction ws with
  | nil => exact hshown
  | cons first rest ih =>
      by_cases hfirst : first.counts = true
      · exact ⟨first, List.mem_cons_self, hfirst⟩
      · suffices hrest : ∃ word ∈ rest, word.counts = true by
          obtain ⟨word, hword, hcounts⟩ := hrest
          exact ⟨word, List.mem_cons_of_mem first hword, hcounts⟩
        obtain ⟨word, hword, hcounts⟩ := hshown
        unfold apply at hword
        split at hword
        · next hkind =>
            rcases List.mem_append.mp hword with hput | hlater
            · obtain ⟨count, rfl⟩ := exists_eq_repeats_of_not_counts hr (hkind ▸ hfirst)
              exact ⟨word, mem_of_mem_put_repeats hput, hcounts⟩
            · exact ih ⟨word, hlater, hcounts⟩
        · rcases List.mem_cons.mp hword with rfl | hlater
          · exact absurd hcounts hfirst
          · exact ih ⟨word, hlater, hcounts⟩

theorem exists_counts_applyAll_iff (hrs : ∀ r ∈ rs, r ∈ rewritings) :
    (∃ word ∈ applyAll rs ws, word.counts = true) ↔ ∃ word ∈ ws, word.counts = true := by
  induction rs generalizing ws with
  | nil => exact Iff.rfl
  | cons r rs ih =>
      obtain ⟨hr, hrs⟩ := List.forall_mem_cons.mp hrs
      have hpass : (∃ word ∈ r.apply ws, word.counts = true) ↔
          ∃ word ∈ ws, word.counts = true :=
        ⟨exists_counts_of_apply hr, exists_counts_apply (shows_of_mem_rewritings hr)⟩
      exact (ih hrs).trans hpass

/-! ## The expansions -/

theorem applyAll_append (rs later : List Rewriting) (ws : List NumberWord) :
    applyAll (rs ++ later) ws = applyAll later (applyAll rs ws) :=
  List.foldl_append

theorem applyAll_beforeTeens (ws : List NumberWord) :
    applyAll beforeTeens ws = expandBelowHundred (expandHundreds (expandThousands ws)) := by
  rw [beforeTeens, applyAll_append, applyAll_append, ← expandAllTens_eq_applyAll,
    expandHundreds_eq, expandThousands_eq]
  rfl

/-- The expansions are the passes, also where two words for repetitions stand together. -/
theorem expandPass_eq_applyAll
    (hteens : ∀ digit, .teen digit ∈ restoreOne ws → ∃ entry ∈ teens, entry.2 = digit) :
    expandPass ws = applyAll rewritings (restoreOne ws) := by
  rw [rewritings_eq_append, applyAll_append, applyAll_teens isDigit_of_mem_teens,
    applyAll_beforeTeens]
  · rfl
  · intro digit hdigit
    rcases mem_applyAll (fun _ => conserves_of_mem_beforeTeens) hdigit with hsymbol | ⟨hws, -⟩
    · cases hsymbol
    · exact hteens digit hws

end Rewriting

/-! ## Numbers -/

theorem expandPass_numberWords (words : List String) :
    expandPass (numberWords words) =
      Rewriting.applyAll Rewriting.rewritings (restoreOne (numberWords words)) := by
  refine Rewriting.expandPass_eq_applyAll fun digit hdigit => ?_
  rcases restoreOne_numberWords_cases hdigit with ⟨c, hsymbol, -⟩ | hkind
  · cases hsymbol
  · exact Rewriting.exists_of_teen_mem hkind

/-- What is left and counts is a symbol. -/
theorem exists_symbol_of_counts (hword : word ∈ expandPass (numberWords words))
    (hcounts : word.counts = true) : ∃ c, word = .symbol c ∧ IsWritten c := by
  rw [expandPass_numberWords] at hword
  rcases Rewriting.mem_applyAll (fun _ => Rewriting.conserves_of_mem_rewritings) hword with
    hdigit | ⟨hbefore, hkinds⟩
  · cases word with
    | symbol c => exact ⟨c, rfl, isWritten_of_isDigit hdigit⟩
    | _ => cases hdigit
  · rcases restoreOne_numberWords_cases hbefore with hsymbol | hkind
    · exact hsymbol
    · obtain ⟨r, hr, rfl⟩ := List.mem_map.mp hkind
      exact absurd rfl (hkinds r hr (Rewriting.putsDigits_of_counts hr hcounts))

theorem isNumeral_of_isWritten {c : Char} (hwritten : IsWritten c) :
    Decimal.isNumeral c = true := by
  rcases hwritten with hdigit | hupper | rfl
  · simp [Decimal.isNumeral, Char.isAlphanum, hdigit]
  · exact Decimal.isNumeral_of_isAlpha (Bool.or_eq_true_iff.mpr (.inl hupper))
  · decide

/-- Numbers are written in digits, capitals and points. -/
theorem isWritten_of_mem_passChars {c : Char} (hc : c ∈ passChars words) : IsWritten c := by
  obtain ⟨word, hword, hwritten⟩ := List.mem_filterMap.mp hc
  cases word with
  | symbol d =>
      obtain ⟨d, hd, hspelled⟩ := exists_symbol_of_counts hword rfl
      cases hd
      cases hwritten
      exact hspelled
  | _ => cases hwritten

theorem exists_counts_restoreOne_iff :
    (∃ word ∈ restoreOne ws, word.counts = true) ↔ ∃ word ∈ ws, word.counts = true := by
  unfold restoreOne
  split
  · simp [NumberWord.counts]
  · simp [NumberWord.counts]
  · exact Iff.rfl

theorem exists_counts_numberWords_iff :
    (∃ word ∈ numberWords words, word.counts = true) ↔
      ∃ word ∈ words, isSilent word = false := by
  constructor
  · rintro ⟨reading, hreading, hcounts⟩
    obtain ⟨hread, -⟩ := List.mem_filter.mp hreading
    obtain ⟨word, hword, hspoken⟩ := List.mem_filterMap.mp hread
    exact ⟨word, hword, by simp [isSilent, hspoken, hcounts]⟩
  · rintro ⟨word, hword, hloud⟩
    obtain ⟨reading, hspoken, hcounts⟩ : ∃ reading, NumberWord.ofWord? word = some reading ∧
        reading.counts = true := by
      cases hread : NumberWord.ofWord? word with
      | none => simp [isSilent, hread] at hloud
      | some reading => exact ⟨reading, rfl, by simpa [isSilent, hread] using hloud⟩
    have hread := List.mem_filterMap.mpr ⟨word, hword, hspoken⟩
    refine ⟨reading, List.mem_filter.mpr ⟨hread, ?_⟩, hcounts⟩
    cases reading with
    | and => cases hcounts
    | _ => rfl

/-- No characters are written exactly if all words are silent. -/
theorem passChars_eq_nil_iff :
    passChars words = [] ↔ ∀ word ∈ words, isSilent word = true := by
  have hshown : ¬ passChars words = [] ↔ ∃ word ∈ words, isSilent word = false := by
    rw [← exists_counts_numberWords_iff, ← exists_counts_restoreOne_iff,
      ← Rewriting.exists_counts_applyAll_iff fun _ => id, ← expandPass_numberWords]
    constructor
    · intro hnonempty
      obtain ⟨c, hc⟩ := List.exists_mem_of_ne_nil _ hnonempty
      obtain ⟨word, hword, hwritten⟩ := List.mem_filterMap.mp hc
      cases word with
      | symbol d => exact ⟨.symbol d, hword, rfl⟩
      | _ => cases hwritten
    · rintro ⟨word, hword, hcounts⟩
      obtain ⟨c, rfl, -⟩ := exists_symbol_of_counts hword hcounts
      exact List.ne_nil_of_mem (List.mem_filterMap.mpr ⟨_, hword, rfl⟩)
  rw [← not_iff_not, hshown]
  simp

theorem passText_eq_empty_iff :
    passText words = "" ↔ ∀ word ∈ words, isSilent word = true := by
  rw [← passChars_eq_nil_iff, passText, String.ofList_eq_empty_iff]

theorem eq_empty_iff_of_number? (hnumber : number? words = some text) :
    text = "" ↔ ∀ word ∈ words, isSilent word = true := by
  rw [← (number?_eq_some_iff.mp hnumber).2, passText_eq_empty_iff]

/-! ## Designators -/

/-- A frequency is written as what the passes leave, with a point, if all loops end. -/
theorem frequency?_eq_some_iff :
    frequency? words = some text ↔
      NumberEnds words ∧ String.ofList (withPoint (passChars words)) = text := by
  rw [frequency?, numberChars?_eq]
  split_ifs with hends <;> simp [hends]

theorem withPoint_eq_nil_iff {cs : List Char} : withPoint cs = [] ↔ cs = [] := by
  unfold withPoint
  split
  · next hlonger =>
      refine iff_of_false (by simp) ?_
      rintro rfl
      simp at hlonger
  · exact Iff.rfl

theorem eq_empty_iff_of_frequency? (hfrequency : frequency? words = some text) :
    text = "" ↔ ∀ word ∈ words, isSilent word = true := by
  rw [← (frequency?_eq_some_iff.mp hfrequency).2, String.ofList_eq_empty_iff,
    withPoint_eq_nil_iff, passChars_eq_nil_iff]

/-- Whether nothing is written for a word of a runway. -/
def isSilentForRunway (word : String) : Bool :=
  ((Alphabet.symbol? word).or (runwaySides.lookup word)).isNone

theorem runway_eq_empty_iff :
    runway words = "" ↔ ∀ word ∈ words, isSilentForRunway word = true := by
  rw [runway, String.ofList_eq_empty_iff, List.filterMap_eq_nil_iff]
  simp only [isSilentForRunway, Option.isNone_iff_eq_none]

/-- Whether some words stand for no waypoint: the first of them names no fix, and nothing is
written for them as a number. -/
def NamesNoWaypoint (words : List String) : Prop :=
  (∀ first ∈ (words.filter (· != "waypoint")).head?, namedFixes.lookup first = none) ∧
    ∀ word ∈ words, isSilent word = true

theorem lookup_namedFixes_ne_empty {word name : String}
    (hname : namedFixes.lookup word = some name) : name ≠ "" := by
  have htable : ∀ entry ∈ namedFixes, entry.2 ≠ "" := by decide
  exact htable (word, name) (mem_of_lookup hname)

theorem not_isSilent_of_isDigit {word : String} (hdigit : Alphabet.isDigit word = true) :
    isSilent word = false := by
  obtain ⟨c, hc⟩ := Option.isSome_iff_exists.mp hdigit
  have htable : ∀ entry ∈ Alphabet.digits, isSilent entry.1 = false := by decide
  exact htable (word, c) (mem_of_lookup hc)

/-- Either a name is found, or all words are left. -/
theorem fixName_cases (words : List String) :
    fixName words = ("", words) ∨ (fixName words).1 ≠ "" := by
  cases words with
  | nil => exact .inl rfl
  | cons first rest =>
      simp only [fixName]
      split_ifs
      · exact .inl rfl
      · exact .inr (show "LMA" ≠ "" by decide)
      · exact .inr (show "DL" ≠ "" by decide)
      · split
        · next hname => exact .inr (lookup_namedFixes_ne_empty hname)
        · exact .inl rfl

/-- Of silent words, all are left exactly if the first of them names no fix. -/
theorem fixName_eq_iff (hsilent : ∀ word ∈ words, isSilent word = true) :
    fixName words = ("", words) ↔ ∀ first ∈ words.head?, namedFixes.lookup first = none := by
  cases words with
  | nil => exact iff_of_true rfl (by simp)
  | cons first rest =>
      have hother : ∀ word, isSilent word = false → first ≠ word := by
        rintro word hloud rfl
        rw [hsilent first List.mem_cons_self] at hloud
        cases hloud
      have hdigit : Alphabet.isDigit first = false := by
        cases hfirst : Alphabet.isDigit first with
        | false => rfl
        | true => exact absurd rfl (hother first (not_isSilent_of_isDigit hfirst))
      -- a silent word spells no number, so only a named fix is looked for
      have hlima := beq_eq_false_iff_ne.mpr (hother "lima" (by decide))
      have hhundred := beq_eq_false_iff_ne.mpr (hother "hundred" (by decide))
      have hthousand := beq_eq_false_iff_ne.mpr (hother "thousand" (by decide))
      simp only [List.head?_cons, Option.mem_some_iff, forall_eq', fixName, hlima, hdigit,
        hhundred, hthousand, Bool.or_self, Bool.false_eq_true, if_false]
      cases hname : namedFixes.lookup first with
      | none => exact iff_of_true rfl rfl
      | some name =>
          refine iff_of_false (fun hsame => ?_) (Option.some_ne_none name)
          exact lookup_namedFixes_ne_empty hname (congrArg Prod.fst hsame)

theorem eq_empty_iff_of_waypoint? (hwaypoint : waypoint? words = some text) :
    text = "" ↔ NamesNoWaypoint words := by
  have hcall : isSilent "waypoint" = true := by decide
  have hwords : (∀ word ∈ words.filter (· != "waypoint"), isSilent word = true) ↔
      ∀ word ∈ words, isSilent word = true := by
    simp only [List.mem_filter, bne_iff_ne, ne_eq, and_imp]
    refine forall₂_congr fun word _ => ?_
    by_cases hword : word = "waypoint"
    · simp [hword, hcall]
    · simp [hword]
  rw [NamesNoWaypoint, ← hwords]
  have hspoken : waypoint? words =
      (number? (fixName (words.filter (· != "waypoint"))).2).map
        ((fixName (words.filter (· != "waypoint"))).1 ++ ·) := rfl
  rw [hspoken] at hwaypoint
  generalize words.filter (· != "waypoint") = called at hwaypoint ⊢
  obtain ⟨number, hnumber, rfl⟩ := Option.map_eq_some_iff.mp hwaypoint
  rw [String.append_eq_empty_iff]
  rcases fixName_cases called with hleft | hname
  · rw [hleft] at hnumber ⊢
    rw [eq_empty_iff_of_number? hnumber]
    constructor
    · rintro ⟨-, hsilent⟩
      exact ⟨(fixName_eq_iff hsilent).mp hleft, hsilent⟩
    · rintro ⟨-, hsilent⟩
      exact ⟨rfl, hsilent⟩
  · refine iff_of_false (fun hempty => hname hempty.1) ?_
    rintro ⟨hnone, hsilent⟩
    rw [(fixName_eq_iff hsilent).mpr hnone] at hname
    exact hname rfl

end Phraseology.Spoken
