import Phraseology.Tag
import Phraseology.Token

/-!
# Repairing the tags of a text

Tagged text may lack tags.  A repair goes through the tokens with the stack of
the tags that are open and adds what is missing, so that every tag that is
opened is closed:

* a command closes what is open down to the sentence or the list of commands,
  for commands never nest;
* a closing tag closes what is open inside the span it belongs to;
* a closing tag that belongs to no open span gets an opening tag in front of it,
  and is noted as unmatched;
* at the end everything that is still open is closed.

Tags that are added have the default confidence.
-/

namespace Phraseology.Repair

/-- The closing tag for an opening one. -/
def closerOf (opener : String) : List Token :=
  match Tag.openAnyTagName? opener with
  | some name => [Token.plain (Tag.closingTag name)]
  | none => []

/-- Closing tags for some opening ones, in their order. -/
def closersOf (openers : List String) : List Token :=
  openers.flatMap closerOf

/-- Whether a closing tag belongs to an opening one. -/
def closes (closer opener : String) : Bool :=
  (Tag.openAnyTagName? opener).any fun name => Tag.closingTag name == closer

/-- Whether commands may stand directly inside a span. -/
def holdsCommands (opener : String) : Bool :=
  opener == Tag.sentenceOpen || opener == Tag.commandsOpen

/-- The opening tag for a closing one that has none. -/
def openerFor (closer : String) : Token :=
  Token.plain (String.ofList ('<' :: closer.toList.drop 2))

/-- The tokens that a repair puts in the place of one token, the tags that are open
behind it, and the token's tag if it was unmatched.  The innermost open tag is
the first. -/
def step (stack : List String) (token : Token) : List Token × List String × List String :=
  if (Tag.openAnyTagName? token.word).isSome then
    let siblings :=
      if Tag.isCommandOpen token.word then stack.takeWhile (!holdsCommands ·) else []
    (closersOf siblings ++ [token], token.word :: stack.drop siblings.length, [])
  else if (Tag.closeTagName? token.word).isSome then
    match stack.findIdx? (closes token.word) with
    | some inside => (closersOf (stack.take inside) ++ [token], stack.drop (inside + 1), [])
    | none => ([openerFor token.word, token], stack, [token.word])
  else ([token], stack, [])

/-- The repaired tokens and the unmatched closing tags of some tokens inside open
tags. -/
def runFrom (stack : List String) : List Token → List Token × List String
  | [] => (closersOf stack, [])
  | token :: rest =>
    let (repaired, opened, unmatched) := step stack token
    let (more, others) := runFrom opened rest
    (repaired ++ more, unmatched ++ others)

/-- The repaired tokens and the unmatched closing tags of some tokens. -/
def run (tokens : List Token) : List Token × List String :=
  runFrom [] tokens

end Phraseology.Repair
