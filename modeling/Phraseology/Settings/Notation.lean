import Phraseology.Settings.Quotation

/-!
# The object notation of settings files

A settings file holds one value: a record `(name: value, …)` or a tuple in round
brackets, either behind a name, a sequence in square brackets, a map in curly
ones, a quoted or raw string, a number or a word.  Commas separate and may
trail; comments count as white space.  Attributes in front of the value switch
on extensions.

Brackets and the items in them may be nested up to a limit, which is handed down as a
budget.  Each step of nesting takes at most three steps of a reading and consumes a
character, as does each further item, so three times the number of characters bounds
the steps.
-/

namespace Phraseology.Settings

/-- What attributes can switch on. -/
inductive Extension where
  /-- A value that may be missing is given without `Some`. -/
  | implicitSome
  | unwrapNewtypes
  /-- The brackets of what `Some` holds fall away. -/
  | unwrapVariantNewtypes
  /-- A record has to carry its name. -/
  | explicitStructNames
deriving DecidableEq, Repr

/-- The extension with a name. -/
def Extension.ofName? : String → Option Extension
  | "implicit_some" => some implicitSome
  | "unwrap_newtypes" => some unwrapNewtypes
  | "unwrap_variant_newtypes" => some unwrapVariantNewtypes
  | "explicit_struct_names" => some explicitStructNames
  | _ => none

/-- A value of the notation, as far as settings tell values apart. -/
inductive Value where
  | truth (b : Bool)
  /-- The word `None`. -/
  | absent
  /-- What `Some` holds. -/
  | present (value : Value)
  /-- A whole number of 64 bits that is not negative. -/
  | number (n : Nat)
  | text (content : String)
  | sequence (items : List Value)
  | record (name : Option String) (fields : List (String × Value))
  | tuple (name : Option String) (items : List Value)
  /-- A map, a character, bytes, another number or another word. -/
  | other

/-- How deep brackets and the items in them may be nested. -/
def nestingLimit : Nat := 128

/-- A word of the notation that stands for a value by itself. -/
def wordValue? (cs : Rest) : Option (Value × Rest) :=
  let words := [("true", Value.truth true), ("false", .truth false), ("None", .absent)] ++
    specialWords.map (·, .other)
  words.findSome? fun (word, value) => (afterWord? word cs).map (value, ·)

/-- A quoted item. -/
def quoted? (cs : Rest) : Option (Value × Rest) :=
  ((string? cs).map fun (s, rest) => (Value.text s, rest)).or
    (((afterByte? cs).or (afterByteString? cs)).or (afterCharacter? cs) |>.map (.other, ·))

/-- A value without brackets: a quoted item or a number. -/
def scalar? (cs : Rest) : Option (Value × Rest) :=
  (quoted? cs).or ((number? cs).map fun (value, rest) => ((value.map .number).getD .other, rest))

/-- Whether a record rather than a tuple is inside a bracket: a name and a colon
come first. -/
def startsRecord (cs : Rest) : Bool :=
  match (name? cs).bind fun (_, rest) => afterSpace? rest with
  | some (':' :: _) => true
  | _ => false

/-- Whether several items stand in front of a closing bracket, when `depth` brackets have
been opened since; `none` if it is missing. -/
def holdsSeveral? : Nat → Nat → Rest → Option Bool
  | 0, _, _ => none
  | fuel + 1, depth, cs =>
    (afterSpace? cs).bind fun start =>
      match ((quoted? start).map (·.2)).getD start with
      | [] => none
      | c :: rest =>
        if c == '(' || c == '[' || c == '\x7b' then holdsSeveral? fuel (depth + 1) rest
        else if c == ')' || c == ']' || c == '\x7d' then
          match depth with
          | 0 => some false
          | depth + 1 => holdsSeveral? fuel depth rest
        else if c == ',' && depth == 0 then (afterSpace? rest).map fun next => next.head? != some ')'
        else holdsSeveral? fuel depth rest

/-- How what stands inside a bracket is to be read. -/
inductive Shape where
  | record
  | tuple
  | single

/-- How what stands between the brackets of `Some` is to be read, if these take the place
of other brackets. -/
def innerShape? (inside : Rest) : Option Shape :=
  if startsRecord inside then some .record
  else if inside.head? == some ')' then some .tuple
  else (holdsSeveral? (inside.length + 1) 0 inside).map fun several =>
    if several then .tuple else .single

mutual

/-- A value within a budget of nesting. -/
def value? (extensions : List Extension) : Nat → Nat → Rest → Option (Value × Rest)
  | 0, _, _ => none
  | fuel + 1, budget, cs =>
    match wordValue? cs with
    | some found => some found
    | none =>
      match afterWord? "Some" cs with
      | some rest => (afterSpace? rest).bind (present? extensions fuel budget)
      | none =>
        match name? cs with
        | some (name, rest) =>
          match afterSpace? rest with
          | some ('(' :: inside) => bracket? extensions fuel budget (some name) inside
          | some _ => some (.other, rest)
          | none => none
        | none =>
          match cs, budget with
          | '(' :: ')' :: rest, _ => some (.tuple none [], rest)
          | '(' :: inside, _ => bracket? extensions fuel budget none inside
          | '[' :: inside, budget + 1 =>
            (afterSpace? inside).bind fun start =>
              (items? extensions fuel budget ']' start).map fun (items, rest) =>
                (.sequence items, rest)
          | '\x7b' :: inside, budget + 1 =>
            (afterSpace? inside).bind fun start =>
              (entries? extensions fuel budget start).map (.other, ·)
          | _, _ => scalar? cs

/-- What stands behind `Some`.  Where `Some` may be left out, so may its brackets. -/
def present? (extensions : List Extension) : Nat → Nat → Rest → Option (Value × Rest)
  | fuel + 1, budget + 1, '(' :: inside =>
    (afterSpace? inside).bind fun start =>
      let shape :=
        if extensions.contains .unwrapVariantNewtypes then innerShape? start else some .single
      match shape with
      | none => none
      | some .single =>
        (value? extensions fuel budget start).bind fun (value, left) =>
          (afterComma? left).bind fun (_, next) =>
            (afterChar? ')' next).map (.present value, ·)
      | some _ =>
        (bracket? extensions fuel budget none start).map fun (value, rest) =>
          (.present value, rest)
  | fuel + 1, budget + 1, cs =>
    if extensions.contains .implicitSome then
      (value? extensions fuel budget cs).map fun (value, rest) => (.present value, rest)
    else none
  | _, _, _ => none

/-- A record or a tuple, behind its opening bracket. -/
def bracket? (extensions : List Extension) :
    Nat → Nat → Option String → Rest → Option (Value × Rest)
  | fuel + 1, budget + 1, name, inside =>
    (afterSpace? inside).bind fun start =>
      if startsRecord start then
        (fields? extensions fuel budget start).map fun (fields, rest) =>
          (.record name fields, rest)
      else
        (items? extensions fuel budget ')' start).map fun (items, rest) =>
          (.tuple name items, rest)
  | _, _, _, _ => none

/-- The fields of a record, up to and including its closing bracket. -/
def fields? (extensions : List Extension) :
    Nat → Nat → Rest → Option (List (String × Value) × Rest)
  | 0, _, _ => none
  | fuel + 1, budget, cs =>
    match cs, budget with
    | ')' :: rest, _ => some ([], rest)
    | _, 0 => none
    | _, inner + 1 =>
      (name? cs).bind fun (name, behind) =>
        ((afterSpace? behind).bind (afterChar? ':')).bind fun colon =>
          (afterSpace? colon).bind fun start =>
            (value? extensions fuel inner start).bind fun (value, left) =>
              (afterComma? left).bind fun (comma, next) =>
                if comma then
                  (fields? extensions fuel budget next).map fun (more, rest) =>
                    ((name, value) :: more, rest)
                else (afterChar? ')' next).map fun rest => ([(name, value)], rest)

/-- Values separated by commas, up to and including a closing bracket. -/
def items? (extensions : List Extension) :
    Nat → Nat → Char → Rest → Option (List Value × Rest)
  | 0, _, _, _ => none
  | fuel + 1, budget, close, cs =>
    match afterChar? close cs, budget with
    | some rest, _ => some ([], rest)
    | none, 0 => none
    | none, inner + 1 =>
      (value? extensions fuel inner cs).bind fun (value, left) =>
        (afterComma? left).bind fun (comma, next) =>
          if comma then
            (items? extensions fuel budget close next).map fun (more, rest) =>
              (value :: more, rest)
          else (afterChar? close next).map fun rest => ([value], rest)

/-- The entries of a map, up to and including its closing bracket. -/
def entries? (extensions : List Extension) : Nat → Nat → Rest → Option Rest
  | 0, _, _ => none
  | fuel + 1, budget, cs =>
    match cs, budget with
    | '\x7d' :: rest, _ => some rest
    | _, 0 => none
    | _, inner + 1 =>
      (value? extensions fuel inner cs).bind fun (_, behind) =>
        ((afterSpace? behind).bind (afterChar? ':')).bind fun colon =>
          (afterSpace? colon).bind fun start =>
            (value? extensions fuel inner start).bind fun (_, left) =>
              (afterComma? left).bind fun (comma, next) =>
                if comma then entries? extensions fuel budget next
                else afterChar? '\x7d' next

end

/-- What follows some characters, each with white space behind it. -/
def afterEach? : List (List Char) → Rest → Option Rest
  | [], cs => some cs
  | start :: more, cs =>
    if start.isPrefixOf cs then (afterSpace? (cs.drop start.length)).bind (afterEach? more)
    else none

/-- The names of extensions, separated by commas. -/
def extensionNames? : Nat → Rest → Option (List Extension × Rest)
  | 0, _ => none
  | fuel + 1, cs =>
    (name? cs).bind fun (name, behind) =>
      (Extension.ofName? name).bind fun extension =>
        (afterComma? behind).bind fun (comma, next) =>
          if comma && next.head?.any continuesName then
            (extensionNames? fuel next).map fun (more, rest) => (extension :: more, rest)
          else some ([extension], next)

/-- The extensions that the attributes in front of a value switch on. -/
def attributes? : Nat → Rest → Option (List Extension × Rest)
  | 0, cs => some ([], cs)
  | fuel + 1, cs =>
    match cs with
    | '#' :: _ =>
      (afterEach? ["#".toList, "!".toList, "[".toList, "enable".toList, "(".toList] cs).bind
        fun inside =>
          (extensionNames? inside.length inside).bind fun (names, behind) =>
            (afterEach? [")".toList, "]".toList] behind).bind fun next =>
              (attributes? fuel next).map fun (more, rest) => (names ++ more, rest)
    | _ => some ([], cs)

/-- A file of the notation: its extensions and its one value. -/
structure Document where
  extensions : List Extension
  value : Value

/-- The content of a file, if all of it is well formed. -/
def Document.read? (text : String) : Option Document :=
  (afterSpace? text.toList).bind fun start =>
    (attributes? start.length start).bind fun (extensions, body) =>
      (value? extensions (3 * body.length + 3) nestingLimit body).bind fun (value, left) =>
        (afterSpace? left).bind fun rest =>
          if rest.isEmpty then some { extensions, value } else none

end Phraseology.Settings
