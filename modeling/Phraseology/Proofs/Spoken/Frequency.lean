import Phraseology.Proofs.Decimal.Numeral
import Phraseology.Proofs.Spoken.Cardinal
import Phraseology.Proofs.Spoken.Silence

/-!
# The point of a frequency

The point of a frequency may be spoken, as in `one two one decimal eight`, or left out.  A spoken
point is a symbol of the number like any other; where there is none, one is put in behind the
third character of the finished number.

`frequency_point` says that both ways lead to the same text (`frequency?_append_decimal` and
`frequency?_append`).  There are two things to it.

* **Symbols in front.**  The expansions take nothing from the words behind a digit or a point, so
  the number is that of the words behind, with the symbols in front of it
  (`passChars_append_symbols`).  The digits put in for the words behind bring no point, unless
  one of these words is `decimal` (`point_notMem_passChars`).
* **Bytes.**  All characters of a number take a single byte (`utf8Size_of_isWritten`), so a number
  may be cut at any of its bytes (`isValid_number`).
-/

namespace Phraseology.Spoken

variable {word : String} {c : Char} {symbols vs words : List String} {after : List NumberWord}

/-! ## Symbols in front -/

instance (ws : List NumberWord) : Decidable (StartAfresh ws) :=
  inferInstanceAs (Decidable (∀ first ∈ ws.head?, _ ∧ _))

theorem numberWords_cons_of_symbol? (hword : Alphabet.symbol? word = some c)
    (words : List String) : numberWords (word :: words) = .symbol c :: numberWords words := by
  have hread : NumberWord.ofWord? word = some (.symbol c) := by
    unfold NumberWord.ofWord?
    rw [hword]
  exact numberWords_cons hread (by simp) words

theorem startAfresh_of_symbol? (hword : Alphabet.symbol? word = some c) (words : List String) :
    StartAfresh (numberWords (word :: words)) := by
  intro first hfirst
  rw [numberWords_cons_of_symbol? hword] at hfirst
  obtain rfl := Option.some.inj hfirst
  simp

section Symbol

variable (hword : Alphabet.symbol? word = some c) (hafresh : StartAfresh (numberWords vs))

include hword hafresh

theorem wholeWords_cons_of_symbol? : wholeWords (word :: vs) = .symbol c :: wholeWords vs := by
  have hplain : ∀ other ∈ [NumberWord.symbol c], other.isPlain = true := by
    simp [NumberWord.isPlain]
  rw [wholeWords, wholeWords, expandMultipliers, expandMultipliers,
    restoreOne_of_startAfresh hafresh,
    restoreOne_of_startAfresh (startAfresh_of_symbol? hword vs), numberWords_cons_of_symbol? hword,
    expandThousands_cons_of_ne (by simp)]
  exact expandHundreds_append_plain hplain _

theorem passChars_cons_of_symbol? : passChars (word :: vs) = c :: passChars vs := by
  have hfinal : (NumberWord.symbol c).isFinal = true := rfl
  have halone : expandPass [.symbol c] = [.symbol c] := by
    simp [expandPass, expandMultipliers, restoreOne, expandThousands, expandHundreds,
      expandBelowHundred, Rewriting.apply, Rewriting.repeats, expandAllTens, tensWords, expandTens,
      expandTeen]
  have hwritten : written? (.symbol c) = some c := rfl
  have hexpand := expandPass_append hfinal hafresh []
  rw [List.nil_append, List.singleton_append, halone, List.singleton_append] at hexpand
  rw [passChars, numberWords_cons_of_symbol? hword, hexpand, List.filterMap_cons_some hwritten,
    passChars]

/-- A symbol stands together with any word. -/
theorem isChain_cons_of_symbol? {R : NumberWord → NumberWord → Prop}
    (hsymbol : ∀ c next, R (.symbol c) next) :
    (wholeWords (word :: vs)).IsChain R ↔ (wholeWords vs).IsChain R := by
  rw [wholeWords_cons_of_symbol? hword hafresh, List.isChain_cons]
  exact and_iff_right fun next _ => hsymbol c next

end Symbol

section Symbols

variable (hsymbols : ∀ word ∈ symbols, (Alphabet.symbol? word).isSome)
  (hafresh : StartAfresh (numberWords vs))

include hsymbols hafresh

theorem startAfresh_append_symbols : StartAfresh (numberWords (symbols ++ vs)) := by
  cases symbols with
  | nil => exact hafresh
  | cons word symbols =>
      obtain ⟨c, hword⟩ := Option.isSome_iff_exists.mp (hsymbols word List.mem_cons_self)
      exact startAfresh_of_symbol? hword (symbols ++ vs)

/-- Digits, letters and points are written in front of the number behind them. -/
theorem passChars_append_symbols :
    passChars (symbols ++ vs) = symbols.filterMap Alphabet.symbol? ++ passChars vs := by
  induction symbols with
  | nil => rw [List.nil_append, List.filterMap_nil, List.nil_append]
  | cons word symbols ih =>
      obtain ⟨hsome, hrest⟩ := List.forall_mem_cons.mp hsymbols
      obtain ⟨c, hword⟩ := Option.isSome_iff_exists.mp hsome
      rw [List.cons_append,
        passChars_cons_of_symbol? hword (startAfresh_append_symbols hrest hafresh), ih hrest,
        List.filterMap_cons_some hword, List.cons_append]

theorem isChain_append_symbols {R : NumberWord → NumberWord → Prop}
    (hsymbol : ∀ c next, R (.symbol c) next) :
    (wholeWords (symbols ++ vs)).IsChain R ↔ (wholeWords vs).IsChain R := by
  induction symbols with
  | nil => exact Iff.rfl
  | cons word symbols ih =>
      obtain ⟨hsome, hrest⟩ := List.forall_mem_cons.mp hsymbols
      obtain ⟨c, hword⟩ := Option.isSome_iff_exists.mp hsome
      exact (isChain_cons_of_symbol? hword (startAfresh_append_symbols hrest hafresh)
        hsymbol).trans (ih hrest)

end Symbols

/-! ## Points -/

theorem eq_decimal_of_symbol? (hword : Alphabet.symbol? word = some '.') : word = "decimal" := by
  have hdigits : ∀ entry ∈ Alphabet.digits, entry.2 ≠ '.' := by decide
  have hletters : ∀ entry ∈ Alphabet.letters, entry.2 ≠ '.' := by decide
  unfold Alphabet.symbol? at hword
  split at hword
  · next hdecimal => exact beq_iff_eq.mp hdecimal
  · rcases Option.or_eq_some_iff.mp hword with hdigit | ⟨-, hletter⟩
    · exact absurd rfl (hdigits _ (mem_of_lookup hdigit))
    · exact absurd rfl (hletters _ (mem_of_lookup hletter))

/-- A point is written only if one is spoken. -/
theorem point_notMem_passChars (hpoint : "decimal" ∉ words) : '.' ∉ passChars words := by
  intro hmem
  obtain ⟨reading, hreading, hwritten⟩ := List.mem_filterMap.mp hmem
  obtain rfl : reading = .symbol '.' := by
    cases reading with
    | symbol c =>
        obtain rfl := Option.some.inj hwritten
        rfl
    | _ => cases hwritten
  rw [expandPass_numberWords] at hreading
  rcases Rewriting.mem_applyAll (fun _ => Rewriting.conserves_of_mem_rewritings) hreading with
    hdigit | ⟨hrestored, -⟩
  · cases hdigit
  · rcases mem_restoreOne hrestored with hone | hspoken
    · cases hone
    · obtain ⟨word, hword, hread⟩ := List.mem_filterMap.mp (List.mem_filter.mp hspoken).1
      rcases ofWord?_cases hread with ⟨c, hsymbol, hsame⟩ | ⟨-, hand | hkind⟩
      · obtain rfl := NumberWord.symbol.inj hsame
        exact hpoint (eq_decimal_of_symbol? hsymbol ▸ hword)
      · cases hand
      · exact absurd hkind (by decide)

theorem symbol?_of_digit? (hword : Alphabet.digit? word = some c) :
    Alphabet.symbol? word = some c := by
  have hnone : Alphabet.digit? "decimal" = none := by decide
  have hdecimal : word ≠ "decimal" := by
    rintro rfl
    rw [hnone] at hword
    cases hword
  rw [Alphabet.symbol?, if_neg (by simpa using hdecimal), hword]
  rfl

theorem filterMap_symbol?_of_isDigit (hdigits : ∀ word ∈ words, Alphabet.isDigit word = true) :
    words.filterMap Alphabet.symbol? = words.filterMap Alphabet.digit? := by
  refine List.filterMap_congr fun word hword => ?_
  obtain ⟨c, hdigit⟩ := Option.isSome_iff_exists.mp (hdigits word hword)
  rw [symbol?_of_digit? hdigit, hdigit]

theorem length_filterMap_digit? (hdigits : ∀ word ∈ words, Alphabet.isDigit word = true) :
    (words.filterMap Alphabet.digit?).length = words.length := by
  rw [List.filterMap_length_eq_length]
  exact hdigits

theorem withPoint_of_point {cs : List Char} (hpoint : '.' ∈ cs) : withPoint cs = cs := by
  simp [withPoint, hpoint]

/-- Characters without a point get one behind the third, if there are more. -/
theorem withPoint_of_three {front back : List Char} (hpoint : '.' ∉ front ++ back)
    (hthree : front.length = 3) (hback : back ≠ []) :
    withPoint (front ++ back) = front ++ '.' :: back := by
  have hlonger : 3 < (front ++ back).length := by
    have hpos := List.length_pos_iff.mpr hback
    rw [List.length_append]
    omega
  have hopen : (front ++ back).contains '.' = false := by
    rwa [← Bool.not_eq_true, List.contains_iff_mem]
  rw [withPoint, hopen, decide_eq_true hlonger, List.take_left' hthree, List.drop_left' hthree]
  rfl

/-! ## Bytes -/

theorem utf8Size_of_isWritten (hc : IsWritten c) : c.utf8Size = 1 := by
  have hsmall : c.toNat ≤ 127 := by
    have hrange := Decimal.toNat_of_isNumeral (isNumeral_of_isWritten hc)
    omega
  exact Char.utf8Size_eq_one_iff.mpr (UInt32.le_iff_toNat_le.mpr hsmall)

theorem utf8ByteSize_of_isWritten {cs : List Char} (hcs : ∀ c ∈ cs, IsWritten c) :
    (String.ofList cs).utf8ByteSize = cs.length := by
  induction cs with
  | nil => rfl
  | cons c cs ih =>
      obtain ⟨hc, hcs⟩ := List.forall_mem_cons.mp hcs
      have hfirst : String.ofList (c :: cs) = String.singleton c ++ String.ofList cs := by simp
      rw [hfirst, String.utf8ByteSize_append, String.utf8ByteSize_singleton,
        utf8Size_of_isWritten hc, ih hcs, List.length_cons, Nat.add_comm]

/-- Numbers may be cut at any byte. -/
theorem isValid_passText (words : List String) {n : Nat} (hn : n ≤ (passText words).utf8ByteSize) :
    (⟨n⟩ : String.Pos.Raw).IsValid (passText words) := by
  have hwritten : ∀ c ∈ passChars words, IsWritten c := fun c hc =>
    isWritten_of_mem_passChars hc
  have hlength : n ≤ (passChars words).length := by
    rwa [passText, utf8ByteSize_of_isWritten hwritten] at hn
  refine String.Pos.Raw.isValid_iff_exists_take_toList.mpr ⟨n, ?_⟩
  rw [passText, String.toList_ofList,
    utf8ByteSize_of_isWritten fun c hc => hwritten c (List.mem_of_mem_take hc), List.length_take]
  exact (Nat.min_eq_left hlength).symm

/-- A point is put in behind the first three bytes, if at all. -/
theorem withPoint_cases {cs : List Char} (hwritten : ∀ c ∈ cs, IsWritten c) :
    withPoint cs = cs ∨ ∃ front back, cs = front ++ back ∧
      (String.ofList front).utf8ByteSize = 3 ∧ back ≠ [] ∧ '.' ∉ cs ∧
        withPoint cs = front ++ '.' :: back := by
  by_cases hpoint : '.' ∈ cs
  · exact .inl (withPoint_of_point hpoint)
  by_cases hlonger : 3 < cs.length
  · have hthree : (cs.take 3).length = 3 := by
      rw [List.length_take]
      omega
    have hback : cs.drop 3 ≠ [] := by
      rw [Ne, List.drop_eq_nil_iff]
      omega
    have hsplit : cs.take 3 ++ cs.drop 3 = cs := List.take_append_drop 3 cs
    have hpointed := withPoint_of_three (hsplit.symm ▸ hpoint) hthree hback
    rw [hsplit] at hpointed
    refine .inr ⟨cs.take 3, cs.drop 3, hsplit.symm, ?_, hback, hpoint, hpointed⟩
    rw [utf8ByteSize_of_isWritten fun c hc => hwritten c (List.mem_of_mem_take hc), hthree]
  · exact .inl (by simp [withPoint, hlonger])

/-! ## Frequencies -/

/-- Words behind the place of a point: none is spoken among them, and they stand for a number of
their own. -/
structure FollowPoint (words : List String) : Prop where
  point : "decimal" ∉ words
  afresh : StartAfresh (numberWords words)
  spoken : number? words ≠ some ""

section Point

variable {digits : List String} (hdigits : ∀ word ∈ digits, Alphabet.isDigit word = true)

include hdigits

theorem isSome_symbol?_of_isDigit : ∀ word ∈ digits, (Alphabet.symbol? word).isSome := by
  intro word hword
  obtain ⟨c, hdigit⟩ := Option.isSome_iff_exists.mp (hdigits word hword)
  rw [symbol?_of_digit? hdigit]
  rfl

variable (hvs : FollowPoint vs)

include hvs

/-- Digits and a point change nothing about the loops, for no word clashes with a symbol. -/
theorem isChain_append_decimal {R : NumberWord → NumberWord → Prop}
    (hsymbol : ∀ c next, R (.symbol c) next) :
    (wholeWords (digits ++ "decimal" :: vs)).IsChain R ↔ (wholeWords vs).IsChain R := by
  have hdecimal : Alphabet.symbol? "decimal" = some '.' := rfl
  exact (isChain_append_symbols (isSome_symbol?_of_isDigit hdigits)
    (startAfresh_of_symbol? hdecimal vs) hsymbol).trans
      (isChain_cons_of_symbol? hdecimal hvs.afresh hsymbol)

theorem isChain_append_behind {R : NumberWord → NumberWord → Prop}
    (hsymbol : ∀ c next, R (.symbol c) next) :
    (wholeWords (digits ++ vs)).IsChain R ↔ (wholeWords vs).IsChain R :=
  isChain_append_symbols (isSome_symbol?_of_isDigit hdigits) hvs.afresh hsymbol

/-- A point that is spoken is among the symbols of the number. -/
theorem frequency?_append_decimal :
    frequency? (digits ++ "decimal" :: vs) = (number? vs).map
      (String.ofList (digits.filterMap Alphabet.digit?) ++ "." ++ ·) := by
  have hdecimal : Alphabet.symbol? "decimal" = some '.' := rfl
  have hends : NumberEnds (digits ++ "decimal" :: vs) ↔ NumberEnds vs :=
    isChain_append_decimal hdigits hvs fun _ => agree_of_not_isTimes rfl
  have hnumber : passChars (digits ++ "decimal" :: vs) =
      digits.filterMap Alphabet.digit? ++ '.' :: passChars vs := by
    rw [passChars_append_symbols (isSome_symbol?_of_isDigit hdigits)
        (startAfresh_of_symbol? hdecimal vs), filterMap_symbol?_of_isDigit hdigits,
      passChars_cons_of_symbol? hdecimal hvs.afresh]
  have hpoint : '.' ∈ passChars (digits ++ "decimal" :: vs) := by
    rw [hnumber]
    exact List.mem_append_right _ List.mem_cons_self
  rw [frequency?, numberChars?_eq, number?_eq, if_congr hends rfl rfl]
  split_ifs
  · rw [Option.map_some, Option.map_some, withPoint_of_point hpoint, hnumber]
    simp [← String.toList_inj, passText]
  · rfl

/-- A point that is not spoken is put in behind three digits. -/
theorem frequency?_append (hthree : digits.length = 3) :
    frequency? (digits ++ vs) = (number? vs).map
      (String.ofList (digits.filterMap Alphabet.digit?) ++ "." ++ ·) := by
  have hends : NumberEnds (digits ++ vs) ↔ NumberEnds vs :=
    isChain_append_behind hdigits hvs fun _ => agree_of_not_isTimes rfl
  have hnumber : passChars (digits ++ vs) =
      digits.filterMap Alphabet.digit? ++ passChars vs := by
    rw [passChars_append_symbols (isSome_symbol?_of_isDigit hdigits) hvs.afresh,
      filterMap_symbol?_of_isDigit hdigits]
  have hnone : "decimal" ∉ digits ++ vs := by
    rw [List.mem_append, not_or]
    refine ⟨fun hmem => ?_, hvs.point⟩
    exact absurd (hdigits "decimal" hmem) (by decide)
  have hpoint := point_notMem_passChars hnone
  rw [frequency?, numberChars?_eq, number?_eq, if_congr hends rfl rfl]
  split_ifs with hspoken
  · have hback : passChars vs ≠ [] := by
      intro hnil
      refine hvs.spoken (number?_eq_some_iff.mpr ⟨hspoken, ?_⟩)
      rw [passText, hnil]
    rw [hnumber] at hpoint
    rw [Option.map_some, Option.map_some, hnumber,
      withPoint_of_three hpoint ((length_filterMap_digit? hdigits).trans hthree) hback]
    simp [← String.toList_inj, passText]
  · rfl

end Point

/-- A frequency is its number, or the number with a point behind the first three bytes. -/
theorem frequency?_of_numberEnds (hends : NumberEnds words) :
    frequency? words = some (passText words) ∨
      ∃ front back, passText words = front ++ back ∧ front.utf8ByteSize = 3 ∧ back ≠ "" ∧
        '.' ∉ (passText words).toList ∧ frequency? words = some (front ++ "." ++ back) := by
  have hwritten : ∀ c ∈ passChars words, IsWritten c := fun c hc =>
    isWritten_of_mem_passChars hc
  rcases withPoint_cases hwritten with
    hsame | ⟨front, back, hsplit, hthree, hback, hpoint, hpointed⟩
  · exact .inl (frequency?_eq_some_iff.mpr ⟨hends, by rw [hsame, passText]⟩)
  · refine .inr ⟨String.ofList front, String.ofList back, ?_, hthree, ?_, ?_, ?_⟩
    · rw [passText, hsplit, String.ofList_append]
    · rwa [Ne, String.ofList_eq_empty_iff]
    · rwa [passText, String.toList_ofList]
    · refine frequency?_eq_some_iff.mpr ⟨hends, ?_⟩
      rw [hpointed]
      simp [← String.toList_inj]

/-- **A frequency reads the same with and without the spoken point.**  Three digits and a number
behind them are written with a point between, whether `decimal` is spoken there or not, and where
the loops end for the number alone, they end for both.  What is put in for a point that is not
spoken is all that is added to the number of the words, and it is put between two characters. -/
theorem frequency_point :
    (∀ digits vs : List String, digits.length = 3 →
      (∀ word ∈ digits, Alphabet.isDigit word = true) → FollowPoint vs →
      frequency? (digits ++ "decimal" :: vs) = (number? vs).map
          (String.ofList (digits.filterMap Alphabet.digit?) ++ "." ++ ·) ∧
        frequency? (digits ++ vs) = (number? vs).map
          (String.ofList (digits.filterMap Alphabet.digit?) ++ "." ++ ·) ∧
        (RepeatsApart (digits ++ "decimal" :: vs) ↔ RepeatsApart vs) ∧
        (RepeatsApart (digits ++ vs) ↔ RepeatsApart vs)) ∧
    ∀ words : List String,
      (RepeatsApart words → (number? words).isSome) ∧
      (number? words = none → frequency? words = none) ∧
      ∀ number, number? words = some number →
        (3 ≤ number.utf8ByteSize → (⟨3⟩ : String.Pos.Raw).IsValid number) ∧
        (frequency? words = some number ∨
          ∃ front back, number = front ++ back ∧ front.utf8ByteSize = 3 ∧ back ≠ "" ∧
            '.' ∉ number.toList ∧ frequency? words = some (front ++ "." ++ back)) := by
  refine ⟨fun digits vs hthree hdigits hvs => ?_, fun words => ⟨fun hapart => ?_, ?_, ?_⟩⟩
  · have hapart : ∀ c next, Apart (.symbol c) next := by
      rintro c next ⟨⟩
    exact ⟨frequency?_append_decimal hdigits hvs, frequency?_append hdigits hvs hthree,
      isChain_append_decimal hdigits hvs hapart, isChain_append_behind hdigits hvs hapart⟩
  · exact isSome_number?_iff.mpr hapart.numberEnds
  · intro hnone
    rw [frequency?, numberChars?_eq, if_neg fun hends => ?_]
    · rfl
    · rw [number?_eq, if_pos hends] at hnone
      cases hnone
  · intro number hnumber
    obtain ⟨hends, rfl⟩ := number?_eq_some_iff.mp hnumber
    exact ⟨fun hlong => isValid_passText words hlong, frequency?_of_numberEnds hends⟩

/-- A frequency with tens, a repetition and a hundred behind the point. -/
theorem frequency_point_oneTwoOne :
    FollowPoint ["and", "twenty", "double", "five", "hundred"] ∧
      frequency? ["one", "two", "one", "and", "twenty", "double", "five", "hundred"] =
        some ("121" ++ "." ++ "25500") := by
  have hfollow : FollowPoint ["and", "twenty", "double", "five", "hundred"] :=
    ⟨by decide, by decide, by decide⟩
  have hnumber : number? ["and", "twenty", "double", "five", "hundred"] = some "25500" := by
    decide
  have hboth := frequency_point.1 ["one", "two", "one"] _ rfl (by decide) hfollow
  rw [hnumber] at hboth
  exact ⟨hfollow, hboth.2.1⟩

end Phraseology.Spoken
