import Phraseology.Settings.Spacing
import Phraseology.Text.Identifier

/-!
# Names of the object notation

A name is an identifier, which may also start with a low line.  Behind the mark `r#`
stands a raw name, in which points and signs are allowed as well.  Some names are words
of the notation itself; a raw name never is.
-/

namespace Phraseology.Settings

/-- Whether a character can start a name. -/
def startsName (c : Char) : Bool :=
  Text.startsIdentifier c || c == '_'

/-- Whether a character can stand in a name. -/
def continuesName (c : Char) : Bool :=
  Text.continuesIdentifier c

/-- Whether a character can stand in a raw name. -/
def continuesRawName (c : Char) : Bool :=
  continuesName c || c == '.' || c == '+' || c == '-'

/-- Whether some characters start a string or bytes rather than a name. -/
def startsString : Rest → Bool
  | 'r' :: '"' :: _ => true
  | 'r' :: '#' :: '"' :: _ => true
  | 'r' :: '#' :: '#' :: _ => true
  | 'b' :: '"' :: _ => true
  | 'b' :: '\'' :: _ => true
  | 'b' :: 'r' :: '"' :: _ => true
  | 'b' :: 'r' :: '#' :: _ => true
  | _ => false

/-- A name.  A name that goes on in characters of raw names only is refused. -/
def name? (cs : Rest) : Option (String × Rest) :=
  if startsString cs then none
  else
    match cs with
    | 'r' :: '#' :: rest =>
      let name := rest.takeWhile continuesRawName
      if name.isEmpty then none
      else some (String.ofList name, rest.dropWhile continuesRawName)
    | c :: _ =>
      let rest := cs.dropWhile continuesName
      if startsName c && !(rest.head?.any continuesRawName) then
        some (String.ofList (cs.takeWhile continuesName), rest)
      else none
    | [] => none

/-- What follows a word that does not go on as a longer name. -/
def afterWord? (word : String) (cs : Rest) : Option Rest :=
  if word.toList.isPrefixOf cs then
    let rest := cs.drop word.length
    if rest.head?.any continuesName then none else some rest
  else none

end Phraseology.Settings
