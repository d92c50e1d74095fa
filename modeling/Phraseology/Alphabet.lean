/-!
# The radiotelephony alphabet

Spelled letters and digits, in the spellings that transcriptions use.  A letter
may have several spellings; each spelling stands for one letter.
-/

namespace Phraseology.Alphabet

/-- The spellings of the letters. -/
def letters : List (String × Char) :=
  [("alpha", 'A'), ("bravo", 'B'), ("charly", 'C'), ("charlie", 'C'), ("delta", 'D'),
   ("echo", 'E'), ("foxtrot", 'F'), ("fox", 'F'), ("golf", 'G'), ("hotel", 'H'),
   ("india", 'I'), ("juliett", 'J'), ("juliet", 'J'), ("kilo", 'K'), ("lima", 'L'),
   ("mike", 'M'), ("november", 'N'), ("oscar", 'O'), ("papa", 'P'), ("quebec", 'Q'),
   ("romeo", 'R'), ("sierra", 'S'), ("tango", 'T'), ("uniform", 'U'), ("victor", 'V'),
   ("whisky", 'W'), ("whiskey", 'W'), ("xray", 'X'), ("yankee", 'Y'), ("zoulou", 'Z'),
   ("zulu", 'Z')]

/-- The spellings of the digits. -/
def digits : List (String × Char) :=
  [("zero", '0'), ("one", '1'), ("two", '2'), ("three", '3'), ("four", '4'), ("five", '5'),
   ("six", '6'), ("seven", '7'), ("eight", '8'), ("nine", '9'), ("niner", '9')]

/-- The letter that a word spells. -/
def letter? (word : String) : Option Char :=
  letters.lookup word

/-- The digit that a word spells. -/
def digit? (word : String) : Option Char :=
  digits.lookup word

/-- Whether a word spells a letter. -/
def isLetter (word : String) : Bool :=
  (letter? word).isSome

/-- Whether a word spells a digit. -/
def isDigit (word : String) : Bool :=
  (digit? word).isSome

/-- The character that a digit, a letter or `decimal` is written with. -/
def symbol? (word : String) : Option Char :=
  if word == "decimal" then some '.'
  else (digit? word).or (letter? word)

/-- All spellings of a letter, in the order of the alphabet's table. -/
def spellings (letter : Char) : List String :=
  (letters.filter (·.2 == letter)).map (·.1)

end Phraseology.Alphabet
