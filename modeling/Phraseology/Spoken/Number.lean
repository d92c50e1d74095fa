import Phraseology.Alphabet

/-!
# Spoken numbers

A spoken number becomes written digits by a fixed series of expansions of its
words: a leading `hundred` or `thousand` gets the `one` that was dropped,
`thousand` and then `hundred` turn into the zeros that the following words do
not fill, `double` and `triple` repeat the next word, tens words turn into their
digit and a zero unless a digit fills its place, and teens into two digits.
Letters and `decimal` pass through as characters, so `four five kilo` is `45K`.

Where a `double` is to repeat another one, the expansion goes on for ever, and
nothing is written.

Words are first read as `NumberWord`s, which are all that the expansions see.
-/

namespace Phraseology.Spoken

/-- A word that can take part in a spoken number. -/
inductive NumberWord where
  /-- A digit, a letter or the decimal point, as it is written. -/
  | symbol (c : Char)
  /-- `eleven` to `nineteen`, by the last digit. -/
  | teen (digit : Char)
  /-- `ten` to `ninety`, by the first digit. -/
  | tens (digit : Char)
  | hundred
  | thousand
  /-- `double` and `triple`, by the number of repetitions. -/
  | times (count : Nat)
  | and
deriving DecidableEq, Repr

/-- The words for eleven to nineteen. -/
def teens : List (String × Char) :=
  [("eleven", '1'), ("twelve", '2'), ("thirteen", '3'), ("fourteen", '4'), ("fifteen", '5'),
   ("sixteen", '6'), ("seventeen", '7'), ("eighteen", '8'), ("eightteen", '8'),
   ("nineteen", '9')]

/-- The words for ten to ninety. -/
def tensWords : List (String × Char) :=
  [("ten", '1'), ("twenty", '2'), ("thirty", '3'), ("forty", '4'), ("fifty", '5'),
   ("sixty", '6'), ("seventy", '7'), ("eighty", '8'), ("ninety", '9')]

namespace NumberWord

/-- The reading of a word, if it can take part in a spoken number. -/
def ofWord? (word : String) : Option NumberWord :=
  match Alphabet.symbol? word with
  | some c => some (.symbol c)
  | none =>
    match tensWords.lookup word with
    | some d => some (.tens d)
    | none =>
      match teens.lookup word with
      | some d => some (.teen d)
      | none =>
        if word == "double" then some (.times 2)
        else if word == "triple" then some (.times 3)
        else if word == "hundred" then some .hundred
        else if word == "thousand" then some .thousand
        else if word == "and" then some .and
        else none

/-- Whether this is a single digit. -/
def isDigit : NumberWord → Bool
  | symbol c => '0' ≤ c && c ≤ '9'
  | _ => false

/-- Whether this is a tens word or a teen. -/
def isTwoDigits : NumberWord → Bool
  | tens _ => true
  | teen _ => true
  | _ => false

end NumberWord

open NumberWord

/-- Whether a word can take part in a spoken number. -/
def isNumberWord (word : String) : Bool :=
  (ofWord? word).isSome

/-- The written zero. -/
def zero : NumberWord := .symbol '0'

/-- The number words of a list of words, without `and`. -/
def numberWords (words : List String) : List NumberWord :=
  (words.filterMap ofWord?).filter (· != .and)

/-- A number that starts with a multiplier starts with one of it. -/
def restoreOne : List NumberWord → List NumberWord
  | .hundred :: rest => .symbol '1' :: .hundred :: rest
  | .thousand :: rest => .symbol '1' :: .thousand :: rest
  | ws => ws

/-- The zeros that a multiplier of `width` zeros leaves, given the next word. -/
def openPlaces (width : Nat) : List NumberWord → Nat
  | [] => width
  | next :: _ =>
    if next.isTwoDigits then width - 2
    else if next.isDigit then width - 1
    else width

/-- Whether a digit and `hundred`, or any word and `hundred`, come next. -/
def continuesWithHundred : List NumberWord → Bool
  | _ :: .hundred :: _ => true
  | _ => false

/-- Replaces each `thousand` by the zeros it leaves; `x thousand y hundred`
goes on as `x y hundred`. -/
def expandThousands : List NumberWord → List NumberWord
  | [] => []
  | .thousand :: rest =>
    (if continuesWithHundred rest then [] else List.replicate (openPlaces 3 rest) zero) ++
      expandThousands rest
  | w :: rest => w :: expandThousands rest

/-- Replaces each `hundred` by the zeros it leaves. -/
def expandHundreds : List NumberWord → List NumberWord
  | [] => []
  | .hundred :: rest => List.replicate (openPlaces 2 rest) zero ++ expandHundreds rest
  | w :: rest => w :: expandHundreds rest

/-- What takes the place of a word for `count` times: the word behind it, but for the one that
stands there already. -/
def repetitions (count : Nat) : List NumberWord → List NumberWord
  | [] => []
  | next :: _ => List.replicate (count - 1) next

/-- Replaces the first word for `count` times; `none` if there is none. -/
def repeatFirst? (count : Nat) : List NumberWord → Option (List NumberWord)
  | [] => none
  | w :: rest =>
    if w == .times count then some (repetitions count rest ++ rest)
    else (repeatFirst? count rest).map (w :: ·)

/-- The loop that replaces the first word for `count` times until there is none; `none` if there
still is one after so many turns. -/
def repeatTurns? (count : Nat) : Nat → List NumberWord → Option (List NumberWord)
  | 0, ws => if ws.contains (.times count) then none else some ws
  | turns + 1, ws =>
    match repeatFirst? count ws with
    | none => some ws
    | some next => repeatTurns? count turns next

/-- What the loop leaves in the end; `none` if it has no end.  A turn takes one of its words away,
unless another one stands behind that: this is put in again and again.  So the loop ends after
one turn for each of its words, or never. -/
def repeatWords? (count : Nat) (ws : List NumberWord) : Option (List NumberWord) :=
  repeatTurns? count (ws.count (.times count)) ws

/-- Whether a place behind a tens word is open: it is filled only by a digit
other than zero. -/
def leavesUnitOpen : List NumberWord → Bool
  | [] => true
  | next :: _ => !next.isDigit || next == zero

/-- Replaces one tens word everywhere. -/
def expandTens (digit : Char) : List NumberWord → List NumberWord
  | [] => []
  | w :: rest =>
    if w == .tens digit then
      .symbol digit :: (if leavesUnitOpen rest then [zero] else []) ++ expandTens digit rest
    else w :: expandTens digit rest

/-- The tens words are replaced one after the other, lowest first, so the first
digit of a lower one may fill the place behind a higher one. -/
def expandAllTens (ws : List NumberWord) : List NumberWord :=
  tensWords.foldl (fun ws entry => expandTens entry.2 ws) ws

/-- A teen is two digits. -/
def expandTeen : NumberWord → List NumberWord
  | .teen d => [.symbol '1', .symbol d]
  | w => [w]

/-- The character a word is written with, once the expansions are done. -/
def written? : NumberWord → Option Char
  | .symbol c => some c
  | _ => none

/-- The expansions in their order; `none` if they have no end. -/
def expandNumber? (ws : List NumberWord) : Option (List NumberWord) :=
  let whole := expandHundreds (expandThousands (restoreOne ws))
  ((repeatWords? 2 whole).bind (repeatWords? 3)).map fun ws =>
    (expandAllTens ws).flatMap expandTeen

/-- The written form of a spoken number, as characters. -/
def numberChars? (words : List String) : Option (List Char) :=
  (expandNumber? (numberWords words)).map (·.filterMap written?)

/-- The written form of a spoken number; `none` for one that is expanded without end, such as
`double double one`. -/
def number? (words : List String) : Option String :=
  (numberChars? words).map String.ofList

end Phraseology.Spoken
