import Phraseology.Proofs.Spoken.Composition

/-!
# The expansions as loops

The loops of a spoken number come one after the other, in a fixed order (`rewritings`).  A turn may
put in copies of the word behind the one that it replaces.  With no two words for repetitions in a
row,

* no loop puts in words of its own kind, so it takes one turn for each of its words, and what it
  leaves is what one pass from the front leaves, the expansion of the same name;
* a turn puts in digits and words that are there anyway, so no kind comes back (`mem_series`);
* a turn keeps all symbols in their order (`sublist_series`).

Since every word that is read is a symbol or of one of the kinds, only symbols are left at the
end (`number_worked_off`).
-/

namespace Phraseology.Spoken

namespace Rewriting

variable {r : Rewriting} {rs : List Rewriting} {n : Nat} {word : NumberWord}
  {ws rest : List NumberWord}

/-! ## The loops of a spoken number -/

/-- `thousand` is replaced by the zeros that it leaves, if no hundreds follow. -/
def thousands : Rewriting where
  kind := .thousand
  put rest := if continuesWithHundred rest then [] else List.replicate (openPlaces 3 rest) zero

/-- `hundred` is replaced by the zeros that it leaves. -/
def hundreds : Rewriting where
  kind := .hundred
  put rest := List.replicate (openPlaces 2 rest) zero

/-- A tens word is replaced by its digit, and a zero if no unit follows. -/
def tens (digit : Char) : Rewriting where
  kind := .tens digit
  put rest := .symbol digit :: if leavesUnitOpen rest then [zero] else []

/-- A teen is replaced by its two digits. -/
def teen (digit : Char) : Rewriting where
  kind := .teen digit
  put _ := [.symbol '1', .symbol digit]

/-- The loops in their order. -/
def rewritings : List Rewriting :=
  [thousands, hundreds] ++ ([repeats 2, repeats 3] ++
    ((tensWords.map fun entry => tens entry.2) ++ teens.map fun entry => teen entry.2))

theorem eq_apply {expand : List NumberWord → List NumberWord} (hnil : expand [] = [])
    (hkind : ∀ rest, expand (r.kind :: rest) = r.put rest ++ expand rest)
    (hother : ∀ word rest, word ≠ r.kind → expand (word :: rest) = word :: expand rest)
    (ws : List NumberWord) : expand ws = r.apply ws := by
  induction ws with
  | nil => exact hnil
  | cons word rest ih =>
      rw [apply]
      split
      · next hword => rw [hword, hkind, ih]
      · next hword => rw [hother word rest hword, ih]

theorem expandThousands_eq (ws : List NumberWord) : expandThousands ws = thousands.apply ws :=
  eq_apply rfl (fun _ => rfl) (fun _ rest hword => expandThousands_cons_of_ne hword rest) ws

theorem expandHundreds_eq (ws : List NumberWord) : expandHundreds ws = hundreds.apply ws := by
  refine eq_apply rfl (fun _ => rfl) (fun word rest hword => ?_) ws
  rw [looksAhead_expandHundreds.cons]
  exact congrArg (· ++ _) (if_neg hword)

theorem expandTens_eq (digit : Char) (ws : List NumberWord) :
    expandTens digit ws = (tens digit).apply ws := by
  refine eq_apply rfl (fun rest => ?_) (fun word rest hword => ?_) ws
  · exact if_pos (beq_self_eq_true _)
  · exact if_neg (fun hsame => hword (beq_iff_eq.mp hsame))

theorem expandAllTens_eq_applyAll (ws : List NumberWord) :
    expandAllTens ws = applyAll (tensWords.map fun entry => tens entry.2) ws := by
  rw [expandAllTens, applyAll, List.foldl_map]
  simp only [expandTens_eq]

/-! ### Loops that put in digits -/

/-- Whether only digits are put in. -/
def PutsDigits (r : Rewriting) : Prop :=
  ∀ rest, ∀ word ∈ r.put rest, word.isDigit = true

theorem PutsDigits.conserves (hdigits : r.PutsDigits) : r.Conserves :=
  fun rest word hword => .inl (hdigits rest word hword)

theorem PutsDigits.ends (hdigits : r.PutsDigits) (hkind : r.kind.isDigit = false)
    (ws : List NumberWord) : r.Ends ws := by
  intro rest _ hput
  exact absurd (hdigits rest r.kind hput) (by simp [hkind])

theorem isDigit_replicate_zero (hword : word ∈ List.replicate n zero) : word.isDigit = true := by
  rw [List.eq_of_mem_replicate hword]
  rfl

theorem putsDigits_thousands : thousands.PutsDigits := by
  intro rest word hword
  dsimp only [thousands] at hword
  split at hword
  · cases hword
  · exact isDigit_replicate_zero hword

theorem putsDigits_hundreds : hundreds.PutsDigits :=
  fun _ _ hword => isDigit_replicate_zero hword

theorem putsDigits_tens {digit : Char} (hdigit : (NumberWord.symbol digit).isDigit = true) :
    (tens digit).PutsDigits := by
  intro rest word hword
  rcases List.mem_cons.mp hword with rfl | hzero
  · exact hdigit
  · split at hzero
    · exact isDigit_replicate_zero (n := 1) hzero
    · cases hzero

theorem putsDigits_teen {digit : Char} (hdigit : (NumberWord.symbol digit).isDigit = true) :
    (teen digit).PutsDigits := by
  intro rest word hword
  obtain rfl | rfl : word = .symbol '1' ∨ word = .symbol digit := by
    simpa [teen] using hword
  · rfl
  · exact hdigit

theorem isDigit_of_mem_tensWords : ∀ entry ∈ tensWords,
    (NumberWord.symbol entry.2).isDigit = true := by decide

theorem isDigit_of_mem_teens : ∀ entry ∈ teens,
    (NumberWord.symbol entry.2).isDigit = true := by decide

/-- A pass over the teens takes them all at once. -/
theorem applyAll_teens {entries : List (String × Char)}
    (hentries : ∀ entry ∈ entries, (NumberWord.symbol entry.2).isDigit = true)
    (hteens : ∀ digit, .teen digit ∈ ws → ∃ entry ∈ entries, entry.2 = digit) :
    applyAll (entries.map fun entry => teen entry.2) ws = ws.flatMap expandTeen := by
  induction entries generalizing ws with
  | nil =>
      have hkept : ∀ word ∈ ws, expandTeen word = [word] := by
        intro word hword
        cases word with
        | teen digit =>
            obtain ⟨_, hnone, _⟩ := hteens digit hword
            cases hnone
        | _ => rfl
      show ws = ws.flatMap expandTeen
      rw [List.flatMap_congr hkept, List.flatMap_singleton']
  | cons entry entries ih =>
      obtain ⟨hentry, hothers⟩ := List.forall_mem_cons.mp hentries
      have hputs := putsDigits_teen hentry
      have hrest : ∀ digit, .teen digit ∈ (teen entry.2).apply ws →
          ∃ other ∈ entries, other.2 = digit := by
        intro digit hdigit
        have hloops := loops_apply (hputs.ends rfl ws)
        rcases mem_loops hputs.conserves hloops hdigit with hsymbol | ⟨hws, hkind⟩
        · cases hsymbol
        · obtain ⟨other, hother, rfl⟩ := hteens digit hws
          rcases List.mem_cons.mp hother with rfl | hother
          · exact absurd rfl hkind
          · exact ⟨other, hother, rfl⟩
      have hpass : ((teen entry.2).apply ws).flatMap expandTeen = ws.flatMap expandTeen := by
        clear hteens hrest
        induction ws with
        | nil => rfl
        | cons word rest ih =>
            rw [apply]
            split
            · next hword =>
                rw [hword, List.flatMap_append, ih, List.flatMap_cons]
                rfl
            · rw [List.flatMap_cons, List.flatMap_cons, ih]
      exact (ih hothers hrest).trans hpass

/-! ### Repetitions -/

/-- Only the word behind a word for repetitions is put in. -/
theorem mem_of_mem_put_repeats {count : Nat} (hword : word ∈ (repeats count).put rest) :
    word ∈ rest := by
  cases rest with
  | nil => cases hword
  | cons next rest =>
      rw [List.eq_of_mem_replicate hword]
      exact List.mem_cons_self

theorem conserves_repeats (count : Nat) : (repeats count).Conserves :=
  fun _ _ hword => .inr (mem_of_mem_put_repeats hword)

/-! ### All loops -/

theorem mem_rewritings_cases (hr : r ∈ rewritings) :
    r = thousands ∨ r = hundreds ∨ (∃ count, r = repeats count) ∨
      (∃ entry ∈ tensWords, r = tens entry.2) ∨ ∃ entry ∈ teens, r = teen entry.2 := by
  rw [rewritings, List.mem_append, List.mem_append, List.mem_append] at hr
  rcases hr with hmultiplier | hrepeats | htens | hteen
  · obtain rfl | rfl : r = thousands ∨ r = hundreds := by simpa using hmultiplier
    · exact .inl rfl
    · exact .inr (.inl rfl)
  · obtain rfl | rfl : r = repeats 2 ∨ r = repeats 3 := by simpa using hrepeats
    · exact .inr (.inr (.inl ⟨2, rfl⟩))
    · exact .inr (.inr (.inl ⟨3, rfl⟩))
  · obtain ⟨entry, hentry, rfl⟩ := List.mem_map.mp htens
    exact .inr (.inr (.inr (.inl ⟨entry, hentry, rfl⟩)))
  · obtain ⟨entry, hentry, rfl⟩ := List.mem_map.mp hteen
    exact .inr (.inr (.inr (.inr ⟨entry, hentry, rfl⟩)))

theorem conserves_of_mem_rewritings (hr : r ∈ rewritings) : r.Conserves := by
  obtain rfl | rfl | ⟨count, rfl⟩ | ⟨entry, hentry, rfl⟩ | ⟨entry, hentry, rfl⟩ :=
    mem_rewritings_cases hr
  · exact putsDigits_thousands.conserves
  · exact putsDigits_hundreds.conserves
  · exact conserves_repeats count
  · exact (putsDigits_tens (isDigit_of_mem_tensWords entry hentry)).conserves
  · exact (putsDigits_teen (isDigit_of_mem_teens entry hentry)).conserves

theorem exists_of_teen_mem {digit : Char} (hdigit : .teen digit ∈ rewritings.map kind) :
    ∃ entry ∈ teens, entry.2 = digit := by
  obtain ⟨r, hr, hkind⟩ := List.mem_map.mp hdigit
  obtain rfl | rfl | ⟨count, rfl⟩ | ⟨entry, hentry, rfl⟩ | ⟨entry, hentry, rfl⟩ :=
    mem_rewritings_cases hr
  · cases hkind
  · cases hkind
  · cases hkind
  · cases hkind
  · exact ⟨entry, hentry, NumberWord.teen.inj hkind⟩

/-- The loops in front of those for the teens. -/
def beforeTeens : List Rewriting :=
  [thousands, hundreds] ++ ([repeats 2, repeats 3] ++ tensWords.map fun entry => tens entry.2)

theorem rewritings_eq_append :
    rewritings = beforeTeens ++ teens.map fun entry => teen entry.2 := by
  rw [rewritings, beforeTeens, List.append_assoc, List.append_assoc]

theorem conserves_of_mem_beforeTeens (hr : r ∈ beforeTeens) : r.Conserves := by
  apply conserves_of_mem_rewritings
  rw [rewritings_eq_append]
  exact List.mem_append_left _ hr

theorem series_beforeTeens (hends : (expandHundreds (expandThousands ws)).IsChain Agree) :
    Series beforeTeens ws (expandBelowHundred (expandHundreds (expandThousands ws))) := by
  have hmultipliers : Series [thousands, hundreds] ws (expandHundreds (expandThousands ws)) := by
    rw [expandHundreds_eq, expandThousands_eq]
    exact .loop (loops_apply (putsDigits_thousands.ends rfl _))
      (.loop (loops_apply (putsDigits_hundreds.ends rfl _)) (.done _))
  have hrepeats : ∀ ws : List NumberWord, ws.IsChain Agree →
      Series [repeats 2, repeats 3] ws ((repeats 3).apply ((repeats 2).apply ws)) := by
    intro ws hends
    obtain ⟨hdoubles, htriples⟩ := isChain_agree_iff.mp hends
    exact .loop (loops_apply (ends_repeats hdoubles))
      (.loop (loops_apply (ends_repeats htriples)) (.done _))
  have htens : ∀ ws, Series (tensWords.map fun entry => tens entry.2) ws (expandAllTens ws) := by
    intro ws
    rw [expandAllTens_eq_applyAll]
    refine series_applyAll (fun r hr => ?_) ws
    obtain ⟨entry, hentry, rfl⟩ := List.mem_map.mp hr
    exact (putsDigits_tens (isDigit_of_mem_tensWords entry hentry)).ends rfl
  exact hmultipliers.append ((hrepeats _ hends).append (htens _))

theorem series_teens (hteens : ∀ digit, .teen digit ∈ ws → ∃ entry ∈ teens, entry.2 = digit) :
    Series (teens.map fun entry => teen entry.2) ws (ws.flatMap expandTeen) := by
  rw [← applyAll_teens isDigit_of_mem_teens hteens]
  refine series_applyAll (fun r hr => ?_) ws
  obtain ⟨entry, hentry, rfl⟩ := List.mem_map.mp hr
  exact (putsDigits_teen (isDigit_of_mem_teens entry hentry)).ends rfl

/-- If all loops end, they leave what the passes leave. -/
theorem series_expandPass (hends : (expandMultipliers ws).IsChain Agree)
    (hteens : ∀ digit, .teen digit ∈ restoreOne ws → ∃ entry ∈ teens, entry.2 = digit) :
    Series rewritings (restoreOne ws) (expandPass ws) := by
  have hbefore := series_beforeTeens hends
  rw [rewritings_eq_append]
  refine hbefore.append (series_teens fun digit hdigit => ?_)
  rcases mem_series (fun _ => conserves_of_mem_beforeTeens) hbefore hdigit with hsymbol | ⟨hws, _⟩
  · cases hsymbol
  · exact hteens digit hws

end Rewriting

/-! ## Numbers without repetitions in a row -/

/-- The characters that numbers are written with. -/
def IsWritten (c : Char) : Prop :=
  c.isDigit = true ∨ c.isUpper = true ∨ c = '.'

instance (c : Char) : Decidable (IsWritten c) :=
  inferInstanceAs (Decidable (_ ∨ _))

theorem isWritten_of_isDigit {c : Char} (hdigit : (NumberWord.symbol c).isDigit = true) :
    IsWritten c := by
  left
  simpa [NumberWord.isDigit, Char.isDigit, Char.le_def] using hdigit

theorem mem_of_lookup {α : Type} {table : List (String × α)} {word : String} {value : α}
    (hlookup : table.lookup word = some value) : (word, value) ∈ table := by
  obtain ⟨before, after, rfl, -⟩ := List.lookup_eq_some_iff.mp hlookup
  exact List.mem_append_right _ List.mem_cons_self

theorem isWritten_of_symbol? {word : String} {c : Char} (hword : Alphabet.symbol? word = some c) :
    IsWritten c := by
  have hdigits : ∀ entry ∈ Alphabet.digits, IsWritten entry.2 := by decide
  have hletters : ∀ entry ∈ Alphabet.letters, IsWritten entry.2 := by decide
  unfold Alphabet.symbol? at hword
  split at hword
  · cases hword
    exact .inr (.inr rfl)
  · rcases Option.or_eq_some_iff.mp hword with hdigit | ⟨-, hletter⟩
    · exact hdigits _ (mem_of_lookup hdigit)
    · exact hletters _ (mem_of_lookup hletter)

/-- What a word is read as: a symbol that it is written with, `and`, or one of the kinds. -/
theorem ofWord?_cases {word : String} {reading : NumberWord}
    (hread : NumberWord.ofWord? word = some reading) :
    (∃ c, Alphabet.symbol? word = some c ∧ reading = .symbol c) ∨
      Alphabet.symbol? word = none ∧
        (reading = .and ∨ reading ∈ Rewriting.rewritings.map Rewriting.kind) := by
  have htens : ∀ entry ∈ tensWords,
      .tens entry.2 ∈ Rewriting.rewritings.map Rewriting.kind := by decide
  have hteens : ∀ entry ∈ teens,
      .teen entry.2 ∈ Rewriting.rewritings.map Rewriting.kind := by decide
  unfold NumberWord.ofWord? at hread
  split at hread
  · next c hsymbol =>
      cases hread
      exact .inl ⟨c, hsymbol, rfl⟩
  · next hsymbol =>
      refine .inr ⟨hsymbol, ?_⟩
      split at hread
      · next digit hlookup =>
          cases hread
          exact .inr (htens _ (mem_of_lookup hlookup))
      · split at hread
        · next digit hlookup =>
            cases hread
            exact .inr (hteens _ (mem_of_lookup hlookup))
        · split_ifs at hread <;> cases hread <;> decide

theorem mem_numberWords_cases {words : List String} {word : NumberWord}
    (hword : word ∈ numberWords words) :
    (∃ c, word = .symbol c ∧ IsWritten c) ∨ word ∈ Rewriting.rewritings.map Rewriting.kind := by
  obtain ⟨hread, hand⟩ := List.mem_filter.mp hword
  obtain ⟨spoken, -, hspoken⟩ := List.mem_filterMap.mp hread
  rcases ofWord?_cases hspoken with ⟨c, hsymbol, rfl⟩ | ⟨-, rfl | hkind⟩
  · exact .inl ⟨c, rfl, isWritten_of_symbol? hsymbol⟩
  · simp at hand
  · exact .inr hkind

/-- The symbols among the readings are those of the words. -/
theorem filterMap_written?_numberWords (words : List String) :
    (numberWords words).filterMap written? = words.filterMap Alphabet.symbol? := by
  have hkinds : ∀ reading ∈ .and :: Rewriting.rewritings.map Rewriting.kind,
      written? reading = none := by decide
  induction words with
  | nil => rfl
  | cons word words ih =>
      unfold numberWords at ih ⊢
      cases hread : NumberWord.ofWord? word with
      | none =>
          have hnone : Alphabet.symbol? word = none := by
            unfold NumberWord.ofWord? at hread
            split at hread
            · cases hread
            · assumption
          rw [List.filterMap_cons_none hread, List.filterMap_cons_none hnone, ih]
      | some reading =>
          rw [List.filterMap_cons_some hread]
          rcases ofWord?_cases hread with ⟨c, hsymbol, rfl⟩ | ⟨hnone, hother⟩
          · have hwritten : written? (.symbol c) = some c := rfl
            rw [List.filter_cons_of_pos (by simp), List.filterMap_cons_some hsymbol,
              List.filterMap_cons_some hwritten, ih]
          · have hwritten := hkinds reading (List.mem_cons.mpr hother)
            rw [List.filterMap_cons_none hnone, List.filter_cons]
            split
            · rw [List.filterMap_cons_none hwritten, ih]
            · exact ih

theorem mem_restoreOne {word : NumberWord} {ws : List NumberWord} (hword : word ∈ restoreOne ws) :
    word = .symbol '1' ∨ word ∈ ws := by
  unfold restoreOne at hword
  split at hword
  · exact List.mem_cons.mp hword
  · exact List.mem_cons.mp hword
  · exact .inr hword

theorem sublist_restoreOne (ws : List NumberWord) : ws.Sublist (restoreOne ws) := by
  unfold restoreOne
  split
  · exact List.sublist_cons_self _ _
  · exact List.sublist_cons_self _ _
  · exact List.Sublist.refl _

/-- The places that the word behind a multiplier fills. -/
def filledPlaces : List NumberWord → Nat
  | [] => 0
  | next :: _ => if next.isTwoDigits then 2 else if next.isDigit then 1 else 0

theorem openPlaces_add_filledPlaces {width : Nat} (hwidth : 2 ≤ width) (rest : List NumberWord) :
    openPlaces width rest + filledPlaces rest = width := by
  cases rest with
  | nil => rfl
  | cons next rest =>
      simp only [openPlaces, filledPlaces]
      split_ifs <;> omega

theorem restoreOne_numberWords_cases {words : List String} {word : NumberWord}
    (hword : word ∈ restoreOne (numberWords words)) :
    (∃ c, word = .symbol c ∧ IsWritten c) ∨ word ∈ Rewriting.rewritings.map Rewriting.kind := by
  rcases mem_restoreOne hword with rfl | hword
  · exact .inl ⟨'1', rfl, by decide⟩
  · exact mem_numberWords_cases hword

section Ends

variable {words : List String} (hends : NumberEnds words)

include hends

theorem series_numberWords :
    Rewriting.Series Rewriting.rewritings (restoreOne (numberWords words))
      (expandPass (numberWords words)) := by
  refine Rewriting.series_expandPass hends fun digit hdigit => ?_
  rcases restoreOne_numberWords_cases hdigit with ⟨c, hsymbol, -⟩ | hkind
  · cases hsymbol
  · exact Rewriting.exists_of_teen_mem hkind

/-- Only symbols are left. -/
theorem exists_symbol_of_mem {word : NumberWord} (hword : word ∈ expandPass (numberWords words)) :
    ∃ c, word = .symbol c ∧ IsWritten c := by
  have hconserves : ∀ r ∈ Rewriting.rewritings, r.Conserves :=
    fun _ => Rewriting.conserves_of_mem_rewritings
  rcases Rewriting.mem_series hconserves (series_numberWords hends) hword with
    hdigit | ⟨hbefore, hkind⟩
  · cases word with
    | symbol c => exact ⟨c, rfl, isWritten_of_isDigit hdigit⟩
    | _ => cases hdigit
  · exact (restoreOne_numberWords_cases hbefore).resolve_right hkind

end Ends

theorem map_symbol_filterMap_written? {ws : List NumberWord}
    (hsymbols : ∀ word ∈ ws, ∃ c, word = .symbol c) : (ws.filterMap written?).map .symbol = ws := by
  induction ws with
  | nil => rfl
  | cons word ws ih =>
      obtain ⟨⟨c, rfl⟩, hws⟩ := List.forall_mem_cons.mp hsymbols
      have hwritten : written? (.symbol c) = some c := rfl
      rw [List.filterMap_cons_some hwritten, List.map_cons, ih hws]

/-- **Numbers without repetitions in a row are worked off.**  If behind the expansions of `thousand`
and `hundred` no two words for repetitions stand together, all loops end, so there is a written
form, and a multiplier never takes away more zeros than it has.  No word of a kind that is replaced
is left, so nothing is dropped when the characters are collected.  These are digits, capitals and
points, and the characters that are spoken are among them in their order. -/
theorem number_worked_off (words : List String) (hapart : RepeatsApart words) :
    ∃ left text, expandNumber? (numberWords words) = some left ∧ number? words = some text ∧
      Rewriting.Series Rewriting.rewritings (restoreOne (numberWords words)) left ∧
      (∀ width, 2 ≤ width → ∀ rest, openPlaces width rest + filledPlaces rest = width) ∧
      (∀ r ∈ Rewriting.rewritings, r.kind ∉ left) ∧
      text.toList.map .symbol = left ∧
      (∀ c ∈ text.toList, c.isDigit = true ∨ c.isUpper = true ∨ c = '.') ∧
      (words.filterMap Alphabet.symbol?).Sublist text.toList := by
  have hends := hapart.numberEnds
  have hchars : (passText words).toList = (expandPass (numberWords words)).filterMap written? :=
    String.toList_ofList
  have hkinds : ∀ r ∈ Rewriting.rewritings, written? r.kind = none := by decide
  have hseries := series_numberWords hends
  refine ⟨_, _, by rw [expandNumber?_eq, if_pos hends], number?_eq_some_iff.mpr ⟨hends, rfl⟩,
    hseries, fun width hwidth => openPlaces_add_filledPlaces hwidth, ?_, ?_, ?_, ?_⟩
  · intro r hr hleft
    obtain ⟨c, hsymbol, -⟩ := exists_symbol_of_mem hends hleft
    have hnone := hkinds r hr
    rw [hsymbol] at hnone
    cases hnone
  · rw [hchars]
    apply map_symbol_filterMap_written?
    intro word hword
    obtain ⟨c, hsymbol, -⟩ := exists_symbol_of_mem hends hword
    exact ⟨c, hsymbol⟩
  · intro c hc
    rw [hchars] at hc
    obtain ⟨word, hword, hwritten⟩ := List.mem_filterMap.mp hc
    obtain ⟨d, rfl, hd⟩ := exists_symbol_of_mem hends hword
    cases hwritten
    exact hd
  · rw [hchars, ← filterMap_written?_numberWords]
    exact ((sublist_restoreOne _).filterMap _).trans (Rewriting.sublist_series hkinds hseries)

/-- A number with repetitions, a tens word, multipliers, a teen, the point and a letter. -/
def tripleFive : List String :=
  ["triple", "five", "and", "twenty", "thousand", "double", "seven", "hundred", "eleven",
    "decimal", "kilo"]

theorem number_worked_off_tripleFive :
    ∃ text, number? tripleFive = some text ∧ ['5', '7', '.', 'K'].Sublist text.toList := by
  have hsymbols : tripleFive.filterMap Alphabet.symbol? = ['5', '7', '.', 'K'] := by
    decide
  obtain ⟨_, text, -, htext, -, -, -, -, -, hkept⟩ :=
    number_worked_off tripleFive (by decide)
  rw [hsymbols] at hkept
  exact ⟨text, htext, hkept⟩

end Phraseology.Spoken
