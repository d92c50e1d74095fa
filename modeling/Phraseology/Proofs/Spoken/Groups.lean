import Mathlib.Data.List.Chain
import Phraseology.Proofs.Spoken.Cardinal

/-!
# Numbers in groups of two digits

A flight number may be spoken in groups, each of them a number from ten to ninety-nine, and ought
to be written with the two digits of each group: `twelve thirty four` is 1234.

A teen and a unit take nothing from what follows them, so behind these a group ends.  A bare tens
word asks whether a digit follows that can be its unit.  Tens words are replaced one kind after
the other, lowest first (`expandTensOf_tens`).  When the turn of a tens word comes, a lower one
behind it has become a digit already, and a higher one has not.  So `twenty thirty` is written as
2030, but `thirty twenty` as 320: the first digit of twenty takes the place of the zero of thirty.

* `numberChars?_groups` says what groups are written as,
* `number_groups_iff` says that they are written as spoken exactly if no bare tens word stands
  in front of a group that starts with a lower one.
-/

namespace Phraseology.Spoken

variable {digit : Char} {digits lower higher : List Char} {word : NumberWord}
  {ws : List NumberWord}

/-! ## Tens words, one kind after the other -/

/-- Replaces the tens words with some first digits, in their order. -/
def expandTensOf (digits : List Char) (ws : List NumberWord) : List NumberWord :=
  digits.foldl (fun ws digit => expandTens digit ws) ws

/-- The first digits of the tens words, in the order in which these are replaced. -/
def tensDigits : List Char :=
  tensWords.map (·.2)

theorem expandAllTens_eq (ws : List NumberWord) : expandAllTens ws = expandTensOf tensDigits ws := by
  rw [expandTensOf, tensDigits, List.foldl_map]
  rfl

theorem expandTensOf_append (lower higher : List Char) (ws : List NumberWord) :
    expandTensOf (lower ++ higher) ws = expandTensOf higher (expandTensOf lower ws) :=
  List.foldl_append

/-- A word that is not replaced stays in front. -/
theorem expandTensOf_cons (hkept : ∀ digit ∈ digits, word ≠ .tens digit) (ws : List NumberWord) :
    expandTensOf digits (word :: ws) = word :: expandTensOf digits ws := by
  induction digits generalizing ws with
  | nil => rfl
  | cons digit digits ih =>
      obtain ⟨hdigit, hdigits⟩ := List.forall_mem_cons.mp hkept
      have hstep : expandTens digit (word :: ws) = word :: expandTens digit ws := by
        rw [expandTens, if_neg (by simpa using hdigit)]
      calc expandTensOf (digit :: digits) (word :: ws)
          = expandTensOf digits (expandTens digit (word :: ws)) := rfl
        _ = expandTensOf digits (word :: expandTens digit ws) := by rw [hstep]
        _ = word :: expandTensOf digits (expandTens digit ws) := ih hdigits _
        _ = word :: expandTensOf (digit :: digits) ws := rfl

/-- When the turn of a tens word comes, the lower ones behind it have been replaced. -/
theorem expandTensOf_tens (hlower : digit ∉ lower) (ws : List NumberWord) :
    expandTensOf (lower ++ digit :: higher) (.tens digit :: ws) =
      .symbol digit :: (if leavesUnitOpen (expandTensOf lower ws) then [zero] else []) ++
        expandTensOf (lower ++ digit :: higher) ws := by
  have hbefore : expandTensOf lower (.tens digit :: ws) = .tens digit :: expandTensOf lower ws := by
    apply expandTensOf_cons
    rintro other hother hsame
    exact hlower (NumberWord.tens.inj hsame ▸ hother)
  have hsymbol : ∀ c ws, expandTensOf higher (.symbol c :: ws) =
      .symbol c :: expandTensOf higher ws := by
    intro c ws
    apply expandTensOf_cons
    simp
  have hturn : ∀ ws, expandTensOf (digit :: higher) ws =
      expandTensOf higher (expandTens digit ws) := fun _ => rfl
  rw [expandTensOf_append, expandTensOf_append, hbefore, hturn, hturn, expandTens,
    if_pos (by simp)]
  split
  · simp only [List.cons_append, List.nil_append, zero, hsymbol]
  · simp only [List.cons_append, List.nil_append, hsymbol]

/-- A tens word that has been replaced fills the place of a unit. -/
theorem leavesUnitOpen_of_mem (hdigit : digit ∈ lower)
    (hunit : leavesUnitOpen [.symbol digit] = false) (ws : List NumberWord) :
    leavesUnitOpen (expandTensOf lower (.tens digit :: ws)) = false := by
  obtain ⟨before, after, rfl, hbefore⟩ := List.eq_append_cons_of_mem hdigit
  rw [expandTensOf_tens hbefore, List.cons_append]
  exact hunit

/-- A word that has not been replaced, and is no digit, leaves the place of a unit open. -/
theorem leavesUnitOpen_of_kept (hkept : ∀ digit ∈ lower, word ≠ .tens digit)
    (hdigit : word.isDigit = false) (ws : List NumberWord) :
    leavesUnitOpen (expandTensOf lower (word :: ws)) = true := by
  rw [expandTensOf_cons hkept, leavesUnitOpen, hdigit]
  rfl

/-- Words that stand for digits are no multipliers. -/
theorem expandMultipliers_of_plain (hplain : ∀ word ∈ ws, word.isPlain = true) :
    expandMultipliers ws = ws := by
  have hrestored : restoreOne ws = ws := by
    cases ws with
    | nil => rfl
    | cons first rest => simpa using restoreOne_append_plain (List.cons_ne_nil first rest) hplain []
  have hthousands : expandThousands ws = ws := by
    simpa [expandThousands] using expandThousands_append_plain hplain []
  have hhundreds : expandHundreds ws = ws := by
    simpa [expandHundreds] using expandHundreds_append_plain hplain []
  rw [expandMultipliers, hrestored, hthousands, hhundreds]

/-! ## Groups -/

/-- A number from ten to ninety-nine as it is spoken. -/
abbrev Group :=
  { number : Cardinal // 10 ≤ number.value }

namespace Name

/-- The first digit of a tens word. -/
def firstDigit (name : Name tensNames) : Char :=
  Nat.digitChar (name.value / 10)

/-- The first digits of the tens words that are replaced earlier. -/
def earlier (name : Name tensNames) : List Char :=
  tensDigits.takeWhile (· != name.firstDigit)

/-- Its own first digit and those of the tens words that are replaced later. -/
theorem exists_tensDigits_eq (name : Name tensNames) :
    ∃ later, tensDigits = name.earlier ++ name.firstDigit :: later := by
  have htable : ∀ entry ∈ tensNames,
      tensDigits.dropWhile (· != Nat.digitChar (entry.2 / 10)) =
        Nat.digitChar (entry.2 / 10) ::
          (tensDigits.dropWhile (· != Nat.digitChar (entry.2 / 10))).tail := by decide
  refine ⟨(tensDigits.dropWhile (· != name.firstDigit)).tail, ?_⟩
  calc tensDigits
      = name.earlier ++ tensDigits.dropWhile (· != name.firstDigit) :=
        List.takeWhile_append_dropWhile.symm
    _ = _ := congrArg (name.earlier ++ ·) (htable name.1 name.2)

theorem firstDigit_notMem_earlier (name : Name tensNames) : name.firstDigit ∉ name.earlier := by
  intro hmem
  have hother := List.all_eq_true.mp List.all_takeWhile _ hmem
  simp at hother

/-- The lower tens words are replaced earlier. -/
theorem mem_earlier_iff (name other : Name tensNames) :
    other.firstDigit ∈ name.earlier ↔ other.value < name.value := by
  have htable : ∀ entry ∈ tensNames, ∀ lower ∈ tensNames,
      Nat.digitChar (lower.2 / 10) ∈ tensDigits.takeWhile (· != Nat.digitChar (entry.2 / 10)) ↔
        lower.2 < entry.2 := by decide
  exact htable name.1 name.2 other.1 other.2

theorem leavesUnitOpen_firstDigit (name : Name tensNames) :
    leavesUnitOpen [.symbol name.firstDigit] = false := by
  have htable : ∀ entry ∈ tensNames,
      leavesUnitOpen [.symbol (Nat.digitChar (entry.2 / 10))] = false := by decide
  exact htable name.1 name.2

theorem toDigits_tens (name : Name tensNames) :
    Nat.toDigits 10 name.value = [name.firstDigit, '0'] := by
  have htable : ∀ entry ∈ tensNames,
      Nat.toDigits 10 entry.2 = [Nat.digitChar (entry.2 / 10), '0'] := by decide
  exact htable name.1 name.2

end Name

/-- A bare tens word is written with its zero, unless it is followed by a digit or by a tens word
that has become one. -/
theorem plainDigits_tens (name : Name tensNames) (ws : List NumberWord) :
    plainDigits (.tens name.firstDigit :: ws) =
      name.firstDigit :: (if leavesUnitOpen (expandTensOf name.earlier ws) then ['0'] else []) ++
        plainDigits ws := by
  obtain ⟨later, hdigits⟩ := name.exists_tensDigits_eq
  unfold plainDigits
  rw [expandAllTens_eq, expandAllTens_eq, hdigits,
    expandTensOf_tens name.firstDigit_notMem_earlier]
  split <;> rfl

namespace Cardinal

/-- The tens word that a number starts with. -/
def leadingTens? : Cardinal → Option (Name tensNames)
  | tens name => some name
  | compound first _ _ => some first
  | _ => none

/-- Whether a bare tens word stands in front of a lower tens word. -/
def losesZero : Cardinal → Cardinal → Bool
  | tens name, next => next.leadingTens?.any (·.value < name.value)
  | _, _ => false

end Cardinal

namespace Group

/-- The spoken words. -/
def words (group : Group) : List String :=
  group.1.words

/-- The two digits that a group ought to be written with. -/
def written (group : Group) : List Char :=
  Nat.toDigits 10 group.1.value

/-- Whether the zero of a group is lost in front of another one. -/
def losesZero (group next : Group) : Bool :=
  group.1.losesZero next.1

/-- The digits that groups come out with. -/
def heard : List Group → List Char
  | [] => []
  | group :: rest =>
    (if rest.head?.any group.losesZero then group.written.dropLast else group.written) ++ heard rest

variable {groups rest : List Group} {group : Group}

theorem numberWords_words (groups : List Group) :
    numberWords (groups.flatMap words) = groups.flatMap (·.1.readings) := by
  induction groups with
  | nil => rfl
  | cons group rest ih =>
      rw [List.flatMap_cons, List.flatMap_cons, numberWords_append, ih, words,
        group.1.numberWords_words]

/-- What stands behind a bare tens word leaves the place of its unit open, unless it starts with
a lower tens word. -/
theorem leavesUnitOpen_readings (name : Name tensNames) (rest : List Group) :
    leavesUnitOpen (expandTensOf name.earlier (rest.flatMap (·.1.readings))) =
      !rest.head?.any fun next => (Cardinal.tens name).losesZero next.1 := by
  have htens : ∀ (first : Name tensNames) (ws : List NumberWord),
      leavesUnitOpen (expandTensOf name.earlier (.tens first.firstDigit :: ws)) =
        !decide (first.value < name.value) := by
    intro first ws
    by_cases hlower : first.value < name.value
    · rw [decide_eq_true hlower]
      exact leavesUnitOpen_of_mem ((name.mem_earlier_iff first).mpr hlower)
        first.leavesUnitOpen_firstDigit ws
    · rw [decide_eq_false hlower]
      refine leavesUnitOpen_of_kept (fun digit hdigit hsame => hlower ?_) rfl ws
      rw [← name.mem_earlier_iff first, NumberWord.tens.inj hsame]
      exact hdigit
  cases rest with
  | nil =>
      have hnil : ∀ digits : List Char, expandTensOf digits [] = [] := by
        intro digits
        induction digits with
        | nil => rfl
        | cons digit digits ih => exact ih
      rw [List.flatMap_nil, hnil]
      rfl
  | cons next rest =>
      obtain ⟨number, hvalue⟩ := next
      cases number with
      | unit unit => exact absurd (value_unit_pos unit).2 (Nat.not_lt.mpr hvalue)
      | teen teen => exact leavesUnitOpen_of_kept (by simp) rfl _
      | tens first => exact htens first _
      | compound first last beyond => exact htens first _

/-- Only bare tens words lose a zero. -/
theorem heard_cons_of_kept (hkept : ∀ next, group.losesZero next = false) (rest : List Group) :
    heard (group :: rest) = group.written ++ heard rest := by
  have hnone : rest.head?.any group.losesZero = false := by
    cases rest with
    | nil => rfl
    | cons next rest => exact hkept next
  rw [heard, hnone]
  rfl

theorem heard_cons_tens (name : Name tensNames) (hvalue : 10 ≤ (Cardinal.tens name).value)
    (rest : List Group) :
    heard (⟨.tens name, hvalue⟩ :: rest) =
      name.firstDigit :: (if rest.head?.any (fun next => (Cardinal.tens name).losesZero next.1)
        then [] else ['0']) ++ heard rest := by
  have hwritten : written ⟨.tens name, hvalue⟩ = [name.firstDigit, '0'] := name.toDigits_tens
  rw [heard, hwritten]
  congr 1
  by_cases hloses : (rest.head?.any fun next => (Cardinal.tens name).losesZero next.1) = true
  · rw [if_pos hloses]
    exact if_pos hloses
  · rw [if_neg hloses]
    exact if_neg hloses

theorem plainDigits_groups (groups : List Group) :
    plainDigits (groups.flatMap (·.1.readings)) = heard groups := by
  induction groups with
  | nil => rfl
  | cons group rest ih =>
      obtain ⟨number, hvalue⟩ := group
      obtain ⟨-, hdigits, -⟩ := number.writes_readings
      rw [List.flatMap_cons]
      cases number with
      | unit unit => exact absurd (value_unit_pos unit).2 (Nat.not_lt.mpr hvalue)
      | tens name =>
          have htens := plainDigits_tens name (rest.flatMap (·.1.readings))
          rw [leavesUnitOpen_readings, ih] at htens
          rw [heard_cons_tens]
          refine htens.trans ?_
          cases rest.head?.any fun next => (Cardinal.tens name).losesZero next.1 <;> rfl
      | teen name =>
          rw [heard_cons_of_kept fun _ => rfl, written, ← hdigits, ← ih]
          exact plainDigits_append rfl [] _
      | compound first last beyond =>
          rw [heard_cons_of_kept fun _ => rfl, written, ← hdigits, ← ih]
          exact plainDigits_append rfl [.tens _] _

/-- Groups come out with their digits, but for the zeros that are lost. -/
theorem numberChars?_groups (groups : List Group) :
    numberChars? (groups.flatMap words) = some (heard groups) := by
  have hplain : ∀ word ∈ groups.flatMap (·.1.readings), word.isPlain = true := by
    intro word hword
    obtain ⟨group, -, hreading⟩ := List.mem_flatMap.mp hword
    exact group.1.isPlain_readings word hreading
  have hwhole : wholeWords (groups.flatMap words) = groups.flatMap (·.1.readings) := by
    rw [wholeWords, numberWords_words, expandMultipliers_of_plain hplain]
  rw [numberChars?_of_plain (by rwa [hwhole]), hwhole, plainDigits_groups]

theorem length_written (group : Group) : group.written.length = 2 := by
  have htable : ∀ n < 100, 10 ≤ n → (Nat.toDigits 10 n).length = 2 := by decide
  obtain ⟨-, -, hlt⟩ := group.1.writes_readings
  exact htable group.1.value hlt group.2

theorem length_heard_le (groups : List Group) : (heard groups).length ≤ 2 * groups.length := by
  induction groups with
  | nil => exact Nat.le_refl 0
  | cons group rest ih =>
      have hfirst : (if rest.head?.any group.losesZero then group.written.dropLast
          else group.written).length ≤ 2 := by
        rw [← group.length_written]
        split
        · exact (List.dropLast_sublist group.written).length_le
        · exact Nat.le_refl _
      rw [heard, List.length_append, List.length_cons]
      omega

theorem length_flatMap_written (groups : List Group) :
    (groups.flatMap written).length = 2 * groups.length := by
  induction groups with
  | nil => rfl
  | cons group rest ih =>
      rw [List.flatMap_cons, List.length_append, ih, group.length_written, List.length_cons]
      omega

/-- Groups come out with all their digits exactly if no zero is lost. -/
theorem heard_eq_iff (groups : List Group) :
    heard groups = groups.flatMap written ↔
      groups.IsChain fun group next => group.losesZero next = false := by
  induction groups with
  | nil => exact iff_of_true rfl .nil
  | cons group rest ih =>
      rw [List.isChain_cons, ← ih, List.flatMap_cons]
      cases hloses : rest.head?.any group.losesZero with
      | true =>
          -- a digit is missing
          have hshort : (heard (group :: rest)).length < 2 + 2 * rest.length := by
            have hrest := length_heard_le rest
            rw [heard, if_pos hloses, List.length_append, List.length_dropLast,
              group.length_written]
            omega
          refine iff_of_false (fun hsame => ?_) (fun hchain => ?_)
          · rw [hsame, List.length_append, group.length_written, length_flatMap_written] at hshort
            exact absurd hshort (Nat.lt_irrefl _)
          · cases rest with
            | nil => cases hloses
            | cons next more => exact Bool.false_ne_true ((hchain.1 next rfl).symm.trans hloses)
      | false =>
          have hkept : ∀ next ∈ rest.head?, group.losesZero next = false := by
            intro next hnext
            rw [Option.mem_def.mp hnext] at hloses
            exact hloses
          rw [heard, hloses, if_neg Bool.false_ne_true, List.append_right_inj]
          exact (and_iff_right hkept).symm

/-- **Groups are written as they are spoken**, two digits each, exactly if no bare tens word stands
in front of a group that starts with a lower tens word. -/
theorem number_groups_iff (groups : List Group) :
    (number? (groups.flatMap words)).isSome ∧
      (number? (groups.flatMap words) = some (String.ofList (groups.flatMap written)) ↔
        groups.IsChain fun group next => group.losesZero next = false) := by
  rw [number?, numberChars?_groups]
  refine ⟨rfl, ?_⟩
  rw [Option.map_some, Option.some_inj, String.ofList_inj, heard_eq_iff]

/-- Not all groups are written as they are spoken: thirty twenty is written as 320. -/
theorem not_forall_number_groups :
    ¬ ∀ groups : List Group,
      number? (groups.flatMap words) = some (String.ofList (groups.flatMap written)) := by
  intro hall
  let thirty : Group := ⟨.tens ⟨("thirty", 30), by decide⟩, by decide⟩
  let twenty : Group := ⟨.tens ⟨("twenty", 20), by decide⟩, by decide⟩
  have hsame := hall [thirty, twenty]
  have hwritten : String.ofList ([thirty, twenty].flatMap written) = "3020" := by decide
  have hnumber : number? ([thirty, twenty].flatMap words) = some "320" := by decide
  rw [hwritten, hnumber] at hsame
  exact absurd hsame (by decide)

end Group

end Phraseology.Spoken
