import Phraseology.Spoken.Number

/-!
# Spoken designators

Runways, frequencies and waypoints have written forms of their own.  Those with a
spoken number in them have one only if its expansion ends.
-/

namespace Phraseology.Spoken

/-- The sides of parallel runways. -/
def runwaySides : List (String × Char) :=
  [("left", 'L'), ("right", 'R')]

/-- Fixes that are spoken as a single word. -/
def namedFixes : List (String × String) :=
  [("metma", "METMA"), ("regno", "REGNO"), ("domux", "DOMUX"), ("waypoint", "Waypoint")]

/-- A runway keeps every digit as spoken, leading zeros included. -/
def runway (words : List String) : String :=
  String.ofList (words.filterMap fun word =>
    (Alphabet.symbol? word).or (runwaySides.lookup word))

/-- Characters with a point behind the third, if there are more and no point is among them. -/
def withPoint (number : List Char) : List Char :=
  if !number.contains '.' && 3 < number.length then number.take 3 ++ '.' :: number.drop 3
  else number

/-- A frequency without a spoken point gets it behind the third digit. -/
def frequency? (words : List String) : Option String :=
  (numberChars? words).map fun number => String.ofList (withPoint number)

/-- The written name that the first words of a waypoint stand for, and the words
that are left to be read as a number.  `lima` alone is short for
`lima mike alpha`, and a bare number belongs to the fixes named `DL`. -/
def fixName : List String → String × List String
  | [] => ("", [])
  | first :: rest =>
    if first == "lima" then
      if rest.take 2 == ["mike", "alpha"] then ("", first :: rest) else ("LMA", rest)
    else if Alphabet.isDigit first || first == "hundred" || first == "thousand" then
      ("DL", first :: rest)
    else
      match namedFixes.lookup first with
      | some name => (name, rest)
      | none => ("", first :: rest)

/-- A waypoint: a named fix, a spelled one, or one with a number. -/
def waypoint? (words : List String) : Option String :=
  let (name, rest) := fixName (words.filter (· != "waypoint"))
  (number? rest).map (name ++ ·)

end Phraseology.Spoken
