import Phraseology.Settings.Number
import Phraseology.Text.Lines

/-!
# Quoted items of the object notation

Strings, bytes and single characters stand in quotes; raw strings and raw bytes have no
escapes and end with as many `#` as they start with.  An escape is one of a few short
ones, a byte `\xHH` or a character `\u{…}`.  In a string the bytes of one character
have to stand together and be its UTF-8 form; a single character can be one byte only if
it is ASCII.
-/

namespace Phraseology.Settings

/-- What an escape stands for. -/
inductive Escape where
  /-- A character with a short escape. -/
  | plain (c : Char)
  | byte (n : Nat)
  /-- A character given by its code point. -/
  | code (c : Char)
deriving DecidableEq, Repr

/-- The character of a code point, if it is one. -/
def charOf? (n : Nat) : Option Char :=
  if n.isValidChar then some (Char.ofNat n) else none

/-- An escape behind its backslash. -/
def escape? : Rest → Option (Escape × Rest)
  | '\'' :: rest => some (.plain '\'', rest)
  | '"' :: rest => some (.plain '"', rest)
  | '\\' :: rest => some (.plain '\\', rest)
  | 'n' :: rest => some (.plain '\n', rest)
  | 'r' :: rest => some (.plain '\r', rest)
  | 't' :: rest => some (.plain '\t', rest)
  | '0' :: rest => some (.plain '\x00', rest)
  | 'x' :: high :: low :: rest => (hexNumber? [high, low]).map (.byte ·, rest)
  | 'u' :: '\x7b' :: rest =>
    let digits := rest.takeWhile (· != '\x7d')
    if digits.isEmpty || 6 < digits.length then none
    else
      (hexNumber? digits).bind fun n => (charOf? n).bind fun c =>
        (afterChar? '\x7d' (rest.drop digits.length)).map (.code c, ·)
  | _ => none

/-- The character whose UTF-8 form starts with some bytes and goes on in at most `more`
escapes for bytes. -/
def encodedChar? : Nat → List UInt8 → Rest → Option (Char × Rest)
  | more + 1, bytes, '\\' :: 'x' :: high :: low :: rest =>
    (hexNumber? [high, low]).bind fun n =>
      let bytes := bytes ++ [UInt8.ofNat n]
      match (Text.decode? bytes).bind (·.toList.head?) with
      | some c => some (c, rest)
      | none => encodedChar? more bytes rest
  | _, _, _ => none

/-- The character of an escape in a string, behind its backslash. -/
def escapedChar? (cs : Rest) : Option (Char × Rest) :=
  match escape? cs with
  | some (.plain c, rest) => some (c, rest)
  | some (.code c, rest) => some (c, rest)
  | some (.byte n, rest) =>
    if n < 0x80 then some (Char.ofNat n, rest) else encodedChar? 3 [UInt8.ofNat n] rest
  | none => none

/-- The characters of a string up to its closing quote. -/
def stringBody? : Nat → Rest → Option (List Char × Rest)
  | _, '"' :: rest => some ([], rest)
  | fuel + 1, '\\' :: rest =>
    (escapedChar? rest).bind fun (c, more) =>
      (stringBody? fuel more).map fun (cs, left) => (c :: cs, left)
  | fuel + 1, c :: rest => (stringBody? fuel rest).map fun (cs, left) => (c :: cs, left)
  | _, _ => none

/-- What follows bytes up to their closing quote. -/
def afterBytes? : Nat → Rest → Option Rest
  | _, '"' :: rest => some rest
  | fuel + 1, '\\' :: rest => (escape? rest).bind fun (_, more) => afterBytes? fuel more
  | fuel + 1, _ :: rest => afterBytes? fuel rest
  | _, _ => none

/-- The characters of a raw string up to its ending. -/
def rawBody? (ending : List Char) : Rest → Option (List Char × Rest)
  | [] => none
  | c :: rest =>
    if ending.isPrefixOf (c :: rest) then some ([], (c :: rest).drop ending.length)
    else (rawBody? ending rest).map fun (cs, left) => (c :: cs, left)

/-- A raw string behind its mark. -/
def raw? (cs : Rest) : Option (List Char × Rest) :=
  let hashes := cs.takeWhile (· == '#')
  (afterChar? '"' (cs.dropWhile (· == '#'))).bind (rawBody? ('"' :: hashes))

/-- A quoted or raw string. -/
def string? : Rest → Option (String × Rest)
  | '"' :: rest => (stringBody? rest.length rest).map fun (cs, left) => (String.ofList cs, left)
  | 'r' :: rest => (raw? rest).map fun (cs, left) => (String.ofList cs, left)
  | _ => none

/-- What follows quoted or raw bytes. -/
def afterByteString? : Rest → Option Rest
  | 'b' :: '"' :: rest => afterBytes? rest.length rest
  | 'b' :: 'r' :: rest => (raw? rest).map (·.2)
  | _ => none

/-- What follows a single character in quotes. -/
def afterCharacter? : Rest → Option Rest
  | '\'' :: '\\' :: rest =>
    match escape? rest with
    | some (.byte n, more) => if n < 0x80 then afterChar? '\'' more else none
    | some (_, more) => afterChar? '\'' more
    | none => none
  | '\'' :: _ :: rest => afterChar? '\'' rest
  | _ => none

/-- What follows a single byte in quotes. -/
def afterByte? : Rest → Option Rest
  | 'b' :: '\'' :: '\\' :: rest =>
    match escape? rest with
    | some (.code _, _) => none
    | some (_, more) => afterChar? '\'' more
    | none => none
  | 'b' :: '\'' :: c :: rest => if c.toNat < 0x80 then afterChar? '\'' rest else none
  | _ => none

end Phraseology.Settings
