/-!
# White space and commas of the object notation

The readers of the notation take the characters that are left and give back what is
left behind the item they read.  White space, line comments and block comments, which
nest, may stand between any two items.
-/

namespace Phraseology.Settings

/-- What is left to read. -/
abbrev Rest := List Char

/-- The white space of the notation. -/
def isSpace (c : Char) : Bool :=
  c == ' ' || ('\t' ≤ c && c ≤ '\r') || c == '\u0085' || c == '\u200E' || c == '\u200F' ||
    c == '\u2028' || c == '\u2029'

/-- What follows a block comment that has been opened `depth + 1` times. -/
def afterBlockComment? : Nat → Rest → Option Rest
  | _, [] => none
  | depth, '/' :: '*' :: rest => afterBlockComment? (depth + 1) rest
  | 0, '*' :: '/' :: rest => some rest
  | depth + 1, '*' :: '/' :: rest => afterBlockComment? depth rest
  | depth, _ :: rest => afterBlockComment? depth rest

/-- What follows white space and comments; `none` for a comment without an end. -/
def skipSpace? : Nat → Rest → Option Rest
  | 0, cs => some cs
  | fuel + 1, cs =>
    match cs.dropWhile isSpace with
    | '/' :: '/' :: rest => skipSpace? fuel (rest.dropWhile (· != '\n'))
    | '/' :: '*' :: rest => (afterBlockComment? 0 rest).bind (skipSpace? fuel)
    | '/' :: _ => none
    | rest => some rest

/-- What follows white space and comments. -/
def afterSpace? (cs : Rest) : Option Rest :=
  skipSpace? (cs.length + 1) cs

/-- What follows a given character. -/
def afterChar? (c : Char) : Rest → Option Rest
  | d :: rest => if c == d then some rest else none
  | [] => none

/-- What follows a comma and the white space around it, and whether there was a
comma. -/
def afterComma? (cs : Rest) : Option (Bool × Rest) :=
  (afterSpace? cs).bind fun rest =>
    match rest with
    | ',' :: more => (afterSpace? more).map (true, ·)
    | _ => some (false, rest)

end Phraseology.Settings
