import Phraseology.Text.Blank

/-!
# Tags

Annotated text marks spans by tags: `<callsign>` and `</callsign>`, and for
commands `<command="descend">`, which a plain `</command>` closes.  Different
readers of a word insist on different amounts of this form:

* `tagName?` only looks for a tag at the start of the word,
* `openTagName?`, `openAnyTagName?` and `closeTagName?` insist on the whole word
  and on names of small letters,
* `commandType?` wants a full command tag at the start of the word.
-/

namespace Phraseology.Tag

/-- The tag that opens a sentence. -/
def sentenceOpen : String := "<s>"
/-- The tag that closes a sentence. -/
def sentenceClose : String := "</s>"
/-- The tag that opens a callsign. -/
def callsignOpen : String := "<callsign>"
/-- The tag that closes a callsign. -/
def callsignClose : String := "</callsign>"
/-- The tag that opens a list of commands. -/
def commandsOpen : String := "<commands>"
/-- The tag that closes a command, whatever its type. -/
def commandClose : String := "</command>"

/-- The characters up to the next `>`, if there is one on the same line. -/
def untilAngle? : List Char → Option (List Char)
  | [] => none
  | c :: rest =>
    if c == '>' then some []
    else if c == '\n' then none
    else (untilAngle? rest).map (c :: ·)

/-- A name of at least one character up to the next `>` behind that. -/
def nameUntilAngle? : List Char → Option (List Char)
  | [] => none
  | c :: rest => if c == '\n' then none else (untilAngle? rest).map (c :: ·)

/-- The name in a tag at the start of some characters.  A slash belongs to the
name only if nothing else is left for it. -/
def tagNameChars? : List Char → Option (List Char)
  | '<' :: '/' :: rest => (nameUntilAngle? rest).or (nameUntilAngle? ('/' :: rest))
  | '<' :: rest => nameUntilAngle? rest
  | _ => none

/-- The name in a tag at the start of a word: `command="descend"` for
`<command="descend">`, `callsign` for `</callsign>`. -/
def tagName? (word : String) : Option String :=
  (tagNameChars? word.toList).map String.ofList

/-- Whether a word starts like a closing tag. -/
def isClosing (word : String) : Bool :=
  "</".toList.isPrefixOf word.toList

/-- Whether a tag name is that of a command with its type. -/
def namesCommand (name : String) : Bool :=
  "command=".toList.isPrefixOf name.toList

/-- The closing tag for a tag name. -/
def closingTag (name : String) : String :=
  if namesCommand name then commandClose else "</" ++ name ++ ">"

/-- The part of a tag name by which an opening and a closing tag are matched. -/
def baseName (name : String) : String :=
  if namesCommand name then "command" else name

/-- A letter of a plain tag name. -/
def isNameChar (c : Char) : Bool :=
  ('a' ≤ c && c ≤ 'z') || c == '_'

/-- A letter of a tag name with an attribute. -/
def isAttributedNameChar (c : Char) : Bool :=
  isNameChar c || c == '=' || c == '"'

/-- The characters of a class, at least one, that fill a word up to a final `>`. -/
def enclosed? (allowed : Char → Bool) (cs : List Char) : Option String :=
  let name := cs.takeWhile allowed
  if cs.dropWhile allowed == ['>'] && !name.isEmpty then some (String.ofList name) else none

/-- The name of a word that is a plain opening tag such as `<speed>`. -/
def openTagName? (word : String) : Option String :=
  match word.toList with
  | '<' :: rest => enclosed? isNameChar rest
  | _ => none

/-- The name of a word that is an opening tag, with or without a command type. -/
def openAnyTagName? (word : String) : Option String :=
  match word.toList with
  | '<' :: rest => enclosed? isAttributedNameChar rest
  | _ => none

/-- The name of a word that is a plain closing tag. -/
def closeTagName? (word : String) : Option String :=
  match word.toList with
  | '<' :: '/' :: rest => enclosed? isNameChar rest
  | _ => none

/-- What follows a given start. -/
def dropStart? (start cs : List Char) : Option (List Char) :=
  if start.isPrefixOf cs then some (cs.drop start.length) else none

/-- The type of a command whose opening tag starts a word. -/
def commandType? (word : String) : Option String :=
  (dropStart? "<command=\"".toList word.toList).bind fun rest =>
    let name := rest.takeWhile isNameChar
    match rest.dropWhile isNameChar with
    | '"' :: '>' :: _ => if name.isEmpty then none else some (String.ofList name)
    | _ => none

/-- Whether a word starts with the opening tag of a command. -/
def isCommandOpen (word : String) : Bool :=
  (commandType? word).isSome

/-- A text with each tag replaced by a space.  A tag runs to the next `>`, and
without one a `<` is kept as it is. -/
def eraseTags (cs : List Char) : List Char :=
  match cs with
  | [] => []
  | '<' :: rest =>
    match h : rest.dropWhile (· != '>') with
    | [] => '<' :: rest
    | _ :: after =>
      have : after.length < rest.length + 1 := by
        have hlen := (List.dropWhile_suffix (l := rest) (· != '>')).length_le
        rw [h, List.length_cons] at hlen
        omega
      ' ' :: eraseTags after
  | c :: rest => c :: eraseTags rest
termination_by cs.length

/-- A tagged text without its tags, its words separated by single spaces. -/
def stripTags (text : String) : String :=
  Text.unwords ((Text.wordsOf (eraseTags text.toList)).map String.ofList)

end Phraseology.Tag
