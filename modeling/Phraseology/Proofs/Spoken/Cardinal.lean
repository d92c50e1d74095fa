import Phraseology.Proofs.Spoken.Composition

/-!
# Spoken cardinals

A number of thousands is spoken as a leading part, digit by digit or as a cardinal below a
hundred, then `thousand`, perhaps a number of hundreds, and perhaps a remainder below a
hundred (`Thousands`).  It ought to be written as the digits of the leading part and three
more for what is below the thousand.

`thousand` and `hundred` leave as many zeros as the words behind them do not fill
(`wholeWords_words`), so what is left to the other expansions is the leading part, a
digit for the hundreds, zero if there are none, and a remainder that fills two places
(`plainDigits_filled`).  They are cut behind the digit for the hundreds, and the remainder
comes out right.  In the leading part a tens word looks at the digit behind it: it takes the
zero of no hundreds as a sign that its own zero is missing, and any other digit for its unit.
So the written form is right but for one case: a bare tens word in front of hundreds loses its
zero (`number_words_iff`), and ten thousand five hundred is written as 1500.
-/

namespace Phraseology.Spoken

/-! ## Names of numbers -/

/-- The names of the numbers from one to nine. -/
def unitNames : List (String × Nat) :=
  [("one", 1), ("two", 2), ("three", 3), ("four", 4), ("five", 5), ("six", 6), ("seven", 7),
   ("eight", 8), ("nine", 9), ("niner", 9)]

/-- The names of the digits. -/
def digitNames : List (String × Nat) :=
  ("zero", 0) :: unitNames

/-- The names of the numbers from eleven to nineteen. -/
def teenNames : List (String × Nat) :=
  [("eleven", 11), ("twelve", 12), ("thirteen", 13), ("fourteen", 14), ("fifteen", 15),
   ("sixteen", 16), ("seventeen", 17), ("eighteen", 18), ("eightteen", 18), ("nineteen", 19)]

/-- The names of the multiples of ten. -/
def tensNames : List (String × Nat) :=
  [("ten", 10), ("twenty", 20), ("thirty", 30), ("forty", 40), ("fifty", 50), ("sixty", 60),
   ("seventy", 70), ("eighty", 80), ("ninety", 90)]

/-- A name out of a table, with the number that it names. -/
abbrev Name (table : List (String × Nat)) :=
  { entry : String × Nat // entry ∈ table }

namespace Name

variable {table : List (String × Nat)}

/-- The spoken word. -/
def word (name : Name table) : String :=
  name.1.1

/-- The number that is named. -/
def value (name : Name table) : Nat :=
  name.1.2

/-- The character of the digit that is named. -/
def digit (name : Name table) : Char :=
  Nat.digitChar name.value

end Name

/-- A number from one to ninety-nine as it is spoken. -/
inductive Cardinal where
  | unit (name : Name unitNames)
  | teen (name : Name teenNames)
  | tens (name : Name tensNames)
  | compound (tens : Name tensNames) (unit : Name unitNames) (beyond : 10 < tens.value)

namespace Cardinal

/-- The spoken words. -/
def words : Cardinal → List String
  | unit name => [name.word]
  | teen name => [name.word]
  | tens name => [name.word]
  | compound first last _ => [first.word, last.word]

/-- The number. -/
def value : Cardinal → Nat
  | unit name => name.value
  | teen name => name.value
  | tens name => name.value
  | compound first last _ => first.value + last.value

end Cardinal

/-- What is spoken in front of `thousand`: digits one by one, or a cardinal. -/
inductive Leading where
  | spelled (first : Name digitNames) (others : List (Name digitNames))
  | cardinal (number : Cardinal)

namespace Leading

/-- The spoken words. -/
def words : Leading → List String
  | spelled first others => (first :: others).map Name.word
  | cardinal number => number.words

/-- The digits. -/
def written : Leading → List Char
  | spelled first others => (first :: others).map Name.digit
  | cardinal number => Nat.toDigits 10 number.value

/-- Whether the leading part is a tens word alone. -/
def isTens : Leading → Bool
  | cardinal (.tens _) => true
  | _ => false

end Leading

/-- The last three digits of a number below a thousand, leading zeros included. -/
def threeDigits (n : Nat) : List Char :=
  [n / 100, n / 10 % 10, n % 10].map Nat.digitChar

/-- A number of thousands as it is spoken. -/
structure Thousands where
  leading : Leading
  hundreds : Option (Name unitNames)
  /-- Whether `and` is spoken in front of the remainder. -/
  joined : Bool
  remainder : Option Cardinal

namespace Thousands

/-- The spoken words. -/
def words (spoken : Thousands) : List String :=
  spoken.leading.words ++ "thousand" ::
    ((spoken.hundreds.toList.flatMap fun name => [name.word, "hundred"]) ++
      ((if spoken.joined then ["and"] else []) ++ spoken.remainder.toList.flatMap Cardinal.words))

/-- How many hundreds there are. -/
def hundredsValue (spoken : Thousands) : Nat :=
  (spoken.hundreds.map Name.value).getD 0

/-- What is left below a hundred. -/
def remainderValue (spoken : Thousands) : Nat :=
  (spoken.remainder.map Cardinal.value).getD 0

/-- The digits that it ought to be written with. -/
def written (spoken : Thousands) : List Char :=
  spoken.leading.written ++ threeDigits (100 * spoken.hundredsValue + spoken.remainderValue)

/-- Whether the digit of the hundreds is taken for the unit of a tens word. -/
def losesZero (spoken : Thousands) : Bool :=
  spoken.leading.isTens && spoken.hundreds.isSome

end Thousands

/-! ## Reading the names -/

/-- What the words are read as. -/
def Cardinal.readings : Cardinal → List NumberWord
  | unit name => [.symbol name.digit]
  | teen name => [.teen (Nat.digitChar (name.value - 10))]
  | tens name => [.tens (Nat.digitChar (name.value / 10))]
  | compound first last _ => [.tens (Nat.digitChar (first.value / 10)), .symbol last.digit]

/-- What the words are read as. -/
def Leading.readings : Leading → List NumberWord
  | spelled first others => (first :: others).map fun name => .symbol name.digit
  | cardinal number => number.readings

/-- What the words of the hundreds are read as. -/
def Thousands.hundredsReadings (spoken : Thousands) : List NumberWord :=
  spoken.hundreds.toList.flatMap fun name => [.symbol name.digit, .hundred]

/-- What the words of the remainder are read as. -/
def Thousands.remainderReadings (spoken : Thousands) : List NumberWord :=
  spoken.remainder.toList.flatMap Cardinal.readings

variable {word : String} {words : List String} {reading : NumberWord}
  {ws rest : List NumberWord}

theorem ofWord?_digit (name : Name digitNames) :
    NumberWord.ofWord? name.word = some (.symbol name.digit) := by
  have htable : ∀ entry ∈ digitNames,
      NumberWord.ofWord? entry.1 = some (.symbol (Nat.digitChar entry.2)) := by decide
  exact htable name.1 name.2

theorem ofWord?_unit (name : Name unitNames) :
    NumberWord.ofWord? name.word = some (.symbol name.digit) :=
  ofWord?_digit ⟨name.1, List.mem_cons_of_mem _ name.2⟩

theorem ofWord?_teen (name : Name teenNames) :
    NumberWord.ofWord? name.word = some (.teen (Nat.digitChar (name.value - 10))) := by
  have htable : ∀ entry ∈ teenNames,
      NumberWord.ofWord? entry.1 = some (.teen (Nat.digitChar (entry.2 - 10))) := by
    decide
  exact htable name.1 name.2

theorem ofWord?_tens (name : Name tensNames) :
    NumberWord.ofWord? name.word = some (.tens (Nat.digitChar (name.value / 10))) := by
  have htable : ∀ entry ∈ tensNames,
      NumberWord.ofWord? entry.1 = some (.tens (Nat.digitChar (entry.2 / 10))) := by
    decide
  exact htable name.1 name.2

theorem numberWords_cons (hread : NumberWord.ofWord? word = some reading) (hand : reading ≠ .and)
    (words : List String) : numberWords (word :: words) = reading :: numberWords words := by
  unfold numberWords
  rw [List.filterMap_cons_some hread, List.filter_cons_of_pos (by simpa using hand)]

theorem Cardinal.numberWords_words (number : Cardinal) :
    numberWords number.words = number.readings := by
  cases number with
  | unit name => exact numberWords_cons (ofWord?_unit name) (by simp) []
  | teen name => exact numberWords_cons (ofWord?_teen name) (by simp) []
  | tens name => exact numberWords_cons (ofWord?_tens name) (by simp) []
  | compound first last _ =>
      rw [words, numberWords_cons (ofWord?_tens first) (by simp),
        numberWords_cons (ofWord?_unit last) (by simp)]
      rfl

theorem Leading.numberWords_words (leading : Leading) :
    numberWords leading.words = leading.readings := by
  cases leading with
  | cardinal number => exact number.numberWords_words
  | spelled first others =>
      simp only [words, readings]
      induction first :: others with
      | nil => rfl
      | cons name names ih =>
          rw [List.map_cons, numberWords_cons (ofWord?_digit name) (by simp), ih]
          rfl

theorem Thousands.numberWords_words (spoken : Thousands) :
    numberWords spoken.words = spoken.leading.readings ++
      .thousand :: (spoken.hundredsReadings ++ spoken.remainderReadings) := by
  have hthousand : NumberWord.ofWord? "thousand" = some .thousand := by decide
  have hhundred : NumberWord.ofWord? "hundred" = some .hundred := by decide
  have hhundreds : numberWords (spoken.hundreds.toList.flatMap fun name =>
      [name.word, "hundred"]) = spoken.hundredsReadings := by
    rw [hundredsReadings]
    cases spoken.hundreds with
    | none => rfl
    | some name =>
        simp only [Option.toList_some, List.flatMap_cons, List.flatMap_nil, List.append_nil]
        rw [numberWords_cons (ofWord?_unit name) (by simp), numberWords_cons hhundred (by simp)]
        rfl
  have hjoined : numberWords (if spoken.joined then ["and"] else []) = [] := by
    cases spoken.joined <;> decide
  have hremainder : numberWords (spoken.remainder.toList.flatMap Cardinal.words) =
      spoken.remainderReadings := by
    rw [remainderReadings]
    cases spoken.remainder with
    | none => rfl
    | some number => simpa using number.numberWords_words
  rw [words, numberWords_append, numberWords_cons hthousand (by simp), numberWords_append,
    numberWords_append, spoken.leading.numberWords_words, hhundreds, hjoined, hremainder]
  rfl

/-! ## Filling the places -/

/-- Whether a word stands for digits. -/
def NumberWord.isPlain : NumberWord → Bool
  | .symbol _ => true
  | .teen _ => true
  | .tens _ => true
  | _ => false

theorem Cardinal.isPlain_readings (number : Cardinal) :
    ∀ reading ∈ number.readings, reading.isPlain = true := by
  cases number <;> simp [readings, NumberWord.isPlain]

theorem Leading.isPlain_readings (leading : Leading) :
    ∀ reading ∈ leading.readings, reading.isPlain = true := by
  cases leading with
  | cardinal number => exact number.isPlain_readings
  | spelled first others =>
      intro reading hreading
      obtain ⟨name, -, rfl⟩ := List.mem_map.mp hreading
      rfl

theorem Thousands.isPlain_remainderReadings (spoken : Thousands) :
    ∀ reading ∈ spoken.remainderReadings, reading.isPlain = true := by
  unfold remainderReadings
  cases spoken.remainder with
  | none => simp
  | some number => simpa using number.isPlain_readings

theorem expandThousands_append_plain (hplain : ∀ word ∈ ws, word.isPlain = true)
    (rest : List NumberWord) : expandThousands (ws ++ rest) = ws ++ expandThousands rest := by
  induction ws with
  | nil => rfl
  | cons word ws ih =>
      obtain ⟨hword, hws⟩ := List.forall_mem_cons.mp hplain
      have hthousand : word ≠ .thousand := by
        rintro rfl
        cases hword
      rw [List.cons_append, expandThousands_cons_of_ne hthousand, ih hws]
      rfl

theorem expandHundreds_append_plain (hplain : ∀ word ∈ ws, word.isPlain = true)
    (rest : List NumberWord) : expandHundreds (ws ++ rest) = ws ++ expandHundreds rest := by
  refine looksAhead_expandHundreds.append (fun word hword next => if_neg ?_) rest
  rintro rfl
  cases hplain _ hword

theorem apply_repeats_of_plain (hplain : ∀ word ∈ ws, word.isPlain = true) (count : Nat) :
    (Rewriting.repeats count).apply ws = ws := by
  have hkept := (looksAhead_repeats count).append
    (fun word hword next => if_neg (by rintro rfl; cases hplain _ hword)) []
  simpa [Rewriting.apply] using hkept

theorem openPlaces_three (ws : List NumberWord) : openPlaces 3 ws = openPlaces 2 ws + 1 := by
  cases ws with
  | nil => rfl
  | cons next ws =>
      simp only [openPlaces]
      split
      · rfl
      · split <;> rfl

theorem continuesWithHundred_of_plain (hplain : ∀ word ∈ ws, word.isPlain = true) :
    continuesWithHundred ws = false := by
  unfold continuesWithHundred
  split
  · next first rest =>
      have hhundred := hplain .hundred (by simp)
      cases hhundred
  · rfl

theorem restoreOne_append_plain (hnonempty : ws ≠ []) (hplain : ∀ word ∈ ws, word.isPlain = true)
    (rest : List NumberWord) : restoreOne (ws ++ rest) = ws ++ rest := by
  refine restoreOne_of_startAfresh fun first hfirst => ?_
  cases ws with
  | nil => exact absurd rfl hnonempty
  | cons head ws =>
      obtain rfl : head = first := by simpa using hfirst
      have hhead := hplain head List.mem_cons_self
      constructor <;> rintro rfl <;> cases hhead

theorem Leading.readings_ne_nil (leading : Leading) : leading.readings ≠ [] := by
  cases leading with
  | spelled first others => simp [readings]
  | cardinal number => cases number <;> simp [readings, Cardinal.readings]

/-- What is left of the hundreds and the remainder once their places are filled. -/
def Thousands.filled (spoken : Thousands) : List NumberWord :=
  .symbol (Nat.digitChar spoken.hundredsValue) ::
    (List.replicate (openPlaces 2 spoken.remainderReadings) zero ++ spoken.remainderReadings)

/-- `thousand` and `hundred` leave the leading part as it is, a digit for the hundreds and the
zeros that the remainder does not fill. -/
theorem Thousands.wholeWords_words (spoken : Thousands) :
    wholeWords spoken.words = spoken.leading.readings ++ spoken.filled := by
  have hleading := spoken.leading.isPlain_readings
  have hremainder := spoken.isPlain_remainderReadings
  have hthousands : expandThousands spoken.remainderReadings = spoken.remainderReadings := by
    simpa [expandThousands] using expandThousands_append_plain hremainder []
  have hhundreds : expandHundreds spoken.remainderReadings = spoken.remainderReadings := by
    simpa [expandHundreds] using expandHundreds_append_plain hremainder []
  have hzeros : ∀ word ∈ List.replicate (openPlaces 3 spoken.remainderReadings) zero ++
      spoken.remainderReadings, word.isPlain = true := by
    refine List.forall_mem_append.mpr ⟨fun word hword => ?_, hremainder⟩
    obtain rfl := List.eq_of_mem_replicate hword
    rfl
  rw [wholeWords, expandMultipliers, spoken.numberWords_words,
    restoreOne_append_plain spoken.leading.readings_ne_nil hleading,
    expandThousands_append_plain hleading, expandHundreds_append_plain hleading, filled]
  congr 1
  unfold hundredsReadings hundredsValue
  cases spoken.hundreds with
  | none =>
      have hkept := expandHundreds_append_plain hzeros []
      rw [List.append_nil] at hkept
      simp only [Option.toList_none, List.flatMap_nil, List.nil_append, expandThousands,
        continuesWithHundred_of_plain hremainder, Bool.false_eq_true, if_false, hthousands, hkept]
      rw [expandHundreds, List.append_nil, openPlaces_three, List.replicate_succ]
      rfl
  | some name =>
      simp only [Option.toList_some, List.flatMap_cons, List.flatMap_nil, List.append_nil,
        List.cons_append, List.nil_append, expandThousands, continuesWithHundred, if_true,
        hthousands, expandHundreds, hhundreds]
      rfl

/-! ## Tens and teens -/

/-- The digits of words without multipliers. -/
def plainDigits (ws : List NumberWord) : List Char :=
  ((expandAllTens ws).flatMap expandTeen).filterMap written?

/-- Of a number without words for repetitions the loops end, and its digits are written. -/
theorem numberChars?_of_plain {words : List String}
    (hplain : ∀ word ∈ wholeWords words, word.isPlain = true) :
    numberChars? words = some (plainDigits (wholeWords words)) := by
  have hends : NumberEnds words := by
    refine RepeatsApart.numberEnds (List.isChain_iff_forall_rel_of_append_cons_cons.mpr ?_)
    intro first second before after hwords htimes
    have hfirst : first.isPlain = true := hplain first (by rw [hwords]; simp)
    cases first with
    | times _ => cases hfirst
    | _ => cases htimes
  rw [numberChars?_eq, if_pos hends, passChars, expandPass, expandBelowHundred]
  unfold wholeWords at hplain ⊢
  rw [apply_repeats_of_plain hplain, apply_repeats_of_plain hplain, plainDigits]

theorem plainDigits_append {word : NumberWord} (hfinal : word.isFinal = true)
    (before after : List NumberWord) :
    plainDigits (before ++ word :: after) =
      plainDigits (before ++ [word]) ++ plainDigits after := by
  obtain ⟨front, hfront⟩ := cutBehind_expandAllTens hfinal before
  have hnil : expandAllTens [] = [] := rfl
  have hsplit : front ++ word :: expandAllTens after = (front ++ [word]) ++ expandAllTens after := by
    simp
  unfold plainDigits
  rw [hfront after, hfront [], hnil, hsplit, List.flatMap_append, List.filterMap_append]

theorem plainDigits_symbol (c : Char) (after : List NumberWord) :
    plainDigits (.symbol c :: after) = c :: plainDigits after := by
  have hfinal : (NumberWord.symbol c).isFinal = true := rfl
  have hsingle : plainDigits [.symbol c] = [c] := by
    simp [plainDigits, expandAllTens, tensWords, expandTens, expandTeen, written?]
  have hsplit := plainDigits_append hfinal [] after
  rwa [List.nil_append, List.nil_append, hsingle] at hsplit

theorem plainDigits_replicate_zero (count : Nat) (after : List NumberWord) :
    plainDigits (List.replicate count zero ++ after) =
      List.replicate count '0' ++ plainDigits after := by
  induction count with
  | zero => simp
  | succ count ih =>
      rw [List.replicate_succ, List.cons_append, zero, plainDigits_symbol, ← zero, ih,
        List.replicate_succ, List.cons_append]

theorem value_unit_pos (name : Name unitNames) : 0 < name.value ∧ name.value < 10 := by
  have htable : ∀ entry ∈ unitNames, 0 < entry.2 ∧ entry.2 < 10 := by decide
  exact htable name.1 name.2

theorem Thousands.hundredsValue_lt (spoken : Thousands) : spoken.hundredsValue < 10 := by
  unfold hundredsValue
  cases spoken.hundreds with
  | none => decide
  | some name => exact (value_unit_pos name).2

/-- Whether a number below a hundred fills two places with zeros for what its words leave
open, and is written with its digits where no zeros are wanted. -/
def Writes (ws : List NumberWord) (n : Nat) : Prop :=
  List.replicate (openPlaces 2 ws) '0' ++ plainDigits ws =
      [Nat.digitChar (n / 10), Nat.digitChar (n % 10)] ∧
    plainDigits ws = Nat.toDigits 10 n ∧ n < 100

instance (ws : List NumberWord) (n : Nat) : Decidable (Writes ws n) :=
  inferInstanceAs (Decidable (_ ∧ _ ∧ _))

theorem Cardinal.writes_readings (number : Cardinal) : Writes number.readings number.value := by
  cases number with
  | unit name =>
      have htable : ∀ entry ∈ unitNames, Writes [.symbol (Nat.digitChar entry.2)] entry.2 := by
        decide
      exact htable name.1 name.2
  | teen name =>
      have htable : ∀ entry ∈ teenNames, Writes [.teen (Nat.digitChar (entry.2 - 10))] entry.2 := by
        decide
      exact htable name.1 name.2
  | tens name =>
      have htable : ∀ entry ∈ tensNames, Writes [.tens (Nat.digitChar (entry.2 / 10))] entry.2 := by
        decide
      exact htable name.1 name.2
  | compound first last _ =>
      have htable : ∀ entry ∈ tensNames, ∀ unit ∈ unitNames,
          Writes [.tens (Nat.digitChar (entry.2 / 10)), .symbol (Nat.digitChar unit.2)]
            (entry.2 + unit.2) := by
        decide
      exact htable first.1 first.2 last.1 last.2

/-! ## The leading part -/

/-- A leading part that does not end with a tens word is written as it is spoken. -/
theorem Leading.plainDigits_readings (leading : Leading) (htens : leading.isTens = false)
    (c : Char) : plainDigits (leading.readings ++ [.symbol c]) = leading.written ++ [c] := by
  have hsymbol : plainDigits [.symbol c] = [c] := plainDigits_symbol c []
  cases leading with
  | spelled first others =>
      simp only [readings, written]
      induction first :: others with
      | nil => exact hsymbol
      | cons name names ih =>
          rw [List.map_cons, List.map_cons, List.cons_append, plainDigits_symbol, ih]
          rfl
  | cardinal number =>
      obtain ⟨-, hdigits, -⟩ := number.writes_readings
      rw [readings, written, ← hdigits]
      cases number with
      | tens name => cases htens
      | unit name =>
          exact (plainDigits_append rfl [] [.symbol c]).trans (congrArg _ hsymbol)
      | teen name =>
          exact (plainDigits_append rfl [] [.symbol c]).trans (congrArg _ hsymbol)
      | compound first last _ =>
          exact (plainDigits_append rfl [.tens _] [.symbol c]).trans (congrArg _ hsymbol)

/-- A bare tens word takes the digit behind it for its unit, unless this is zero. -/
theorem Leading.plainDigits_tens (leading : Leading) (htens : leading.isTens = true) {h : Nat}
    (hh : h < 10) :
    plainDigits (leading.readings ++ [.symbol (Nat.digitChar h)]) =
        (if h = 0 then leading.written else leading.written.dropLast) ++ [Nat.digitChar h] ∧
      leading.written.length = 2 := by
  have htable : ∀ entry ∈ tensNames, ∀ h < 10,
      plainDigits ([.tens (Nat.digitChar (entry.2 / 10))] ++ [.symbol (Nat.digitChar h)]) =
          (if h = 0 then Nat.toDigits 10 entry.2 else (Nat.toDigits 10 entry.2).dropLast) ++
            [Nat.digitChar h] ∧
        (Nat.toDigits 10 entry.2).length = 2 := by
    decide
  cases leading with
  | spelled first others => cases htens
  | cardinal number =>
      cases number with
      | tens name => exact htable name.1 name.2 h hh
      | unit name => cases htens
      | teen name => cases htens
      | compound first last _ => cases htens

/-! ## Thousands -/

namespace Thousands

/-- The hundreds and the remainder come out as three digits. -/
theorem plainDigits_filled (spoken : Thousands) :
    plainDigits spoken.filled =
      threeDigits (100 * spoken.hundredsValue + spoken.remainderValue) := by
  have hremainder : List.replicate (openPlaces 2 spoken.remainderReadings) '0' ++
        plainDigits spoken.remainderReadings =
        [Nat.digitChar (spoken.remainderValue / 10), Nat.digitChar (spoken.remainderValue % 10)] ∧
      spoken.remainderValue < 100 := by
    unfold remainderReadings remainderValue
    cases spoken.remainder with
    | none => decide
    | some number =>
        obtain ⟨hplaces, -, hlt⟩ := number.writes_readings
        simpa using And.intro hplaces hlt
  obtain ⟨hplaces, hlt⟩ := hremainder
  have hhundreds : (100 * spoken.hundredsValue + spoken.remainderValue) / 100 =
      spoken.hundredsValue := by omega
  have htens : (100 * spoken.hundredsValue + spoken.remainderValue) / 10 % 10 =
      spoken.remainderValue / 10 := by omega
  have hunits : (100 * spoken.hundredsValue + spoken.remainderValue) % 10 =
      spoken.remainderValue % 10 := by omega
  rw [filled, plainDigits_symbol, plainDigits_replicate_zero, hplaces, threeDigits, hhundreds,
    htens, hunits]
  simp only [List.map_cons, List.map_nil]

theorem isSome_hundreds_iff (spoken : Thousands) :
    spoken.hundreds.isSome ↔ spoken.hundredsValue ≠ 0 := by
  unfold hundredsValue
  cases spoken.hundreds with
  | none => simp
  | some name =>
      have hpos := (value_unit_pos name).1
      simp only [Option.isSome_some, Option.map_some, Option.getD_some, true_iff]
      omega

/-- The leading part loses its last digit if the digit of the hundreds takes its place. -/
theorem plainDigits_leading (spoken : Thousands) :
    plainDigits (spoken.leading.readings ++ [.symbol (Nat.digitChar spoken.hundredsValue)]) =
      (if spoken.losesZero then spoken.leading.written.dropLast else spoken.leading.written) ++
        [Nat.digitChar spoken.hundredsValue] := by
  unfold losesZero
  cases htens : spoken.leading.isTens with
  | false => exact spoken.leading.plainDigits_readings htens _
  | true =>
      rw [(spoken.leading.plainDigits_tens htens spoken.hundredsValue_lt).1]
      have hhundreds := spoken.isSome_hundreds_iff
      by_cases hnone : spoken.hundredsValue = 0
      · have hsome : spoken.hundreds.isSome = false := by
          rw [Bool.eq_false_iff, ne_eq, hhundreds]
          exact not_not_intro hnone
        rw [hsome, if_pos hnone]
        rfl
      · rw [hhundreds.mpr hnone, if_neg hnone]
        rfl

theorem numberChars?_words (spoken : Thousands) :
    numberChars? spoken.words = some
      ((if spoken.losesZero then spoken.leading.written.dropLast else spoken.leading.written) ++
        threeDigits (100 * spoken.hundredsValue + spoken.remainderValue)) := by
  have hplain : ∀ word ∈ wholeWords spoken.words, word.isPlain = true := by
    rw [spoken.wholeWords_words]
    refine List.forall_mem_append.mpr ⟨spoken.leading.isPlain_readings, ?_⟩
    refine List.forall_mem_cons.mpr ⟨rfl, List.forall_mem_append.mpr ⟨fun word hword => ?_,
      spoken.isPlain_remainderReadings⟩⟩
    obtain rfl := List.eq_of_mem_replicate hword
    rfl
  have hbelow := spoken.plainDigits_filled
  rw [filled, plainDigits_symbol] at hbelow
  rw [numberChars?_of_plain hplain, spoken.wholeWords_words, filled, plainDigits_append rfl,
    spoken.plainDigits_leading, List.append_assoc, List.singleton_append, hbelow]

/-- **Thousands are written as they are spoken**, but for one case: the digit of the hundreds
takes the place of the zero of a bare tens word in front of `thousand`. -/
theorem number_words_iff (spoken : Thousands) :
    (number? spoken.words).isSome ∧
      (number? spoken.words = some (String.ofList spoken.written) ↔
        spoken.losesZero = false) := by
  rw [number?, spoken.numberChars?_words]
  refine ⟨rfl, ?_⟩
  rw [Option.map_some, Option.some_inj, String.ofList_inj, written, List.append_left_inj]
  cases hloses : spoken.losesZero with
  | false => simp
  | true =>
      have htens : spoken.leading.isTens = true := by
        rw [losesZero, Bool.and_eq_true] at hloses
        exact hloses.1
      have hlength := (spoken.leading.plainDigits_tens htens (Nat.zero_lt_succ 9)).2
      refine iff_of_false (fun hsame => ?_) (by simp)
      have hshorter := congrArg List.length hsame
      rw [if_pos rfl, List.length_dropLast] at hshorter
      omega

/-- Ten thousand five hundred. -/
def tenThousandFiveHundred : Thousands where
  leading := .cardinal (.tens ⟨("ten", 10), by decide⟩)
  hundreds := some ⟨("five", 5), by decide⟩
  joined := false
  remainder := none

/-- Not all thousands are written as they are spoken: ten thousand five hundred is written as
1500. -/
theorem not_forall_number_words :
    ¬ ∀ spoken : Thousands, number? spoken.words = some (String.ofList spoken.written) := by
  intro hall
  have hwritten : String.ofList tenThousandFiveHundred.written = "10500" := by decide
  have hnumber : number? tenThousandFiveHundred.words = some "1500" := by decide
  have hsame := hall tenThousandFiveHundred
  rw [hwritten, hnumber] at hsame
  exact absurd hsame (by decide)

end Thousands

end Phraseology.Spoken
