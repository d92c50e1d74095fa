import Phraseology.Text.CaseTable
import Phraseology.Text.Ranges

/-!
# Lower and upper case

Lower case maps a character to one character, with two exceptions: a capital I
with a dot becomes an i and a combining dot, and a capital sigma takes its
final form where a word ends.  Upper case may take several characters.  ASCII
is decided without the tables.
-/

namespace Phraseology.Text

/-- The first answer of a list of runs for a code point. -/
def CaseRun.lookup (runs : List CaseRun) (n : Nat) : Option Nat :=
  runs.findSome? (·.find? n)

/-- Lower case of a character, wherever it stands. -/
def lowerChar (c : Char) : List Char :=
  if c.toNat < 0x80 then [c.toLower]
  else if c == 'İ' then ['i', '\u0307']
  else
    match CaseRun.lookup lowerRuns c.toNat with
    | some n => [Char.ofNat n]
    | none => [c]

/-- Upper case of a character. -/
def upperChar (c : Char) : List Char :=
  if c.toNat < 0x80 then [c.toUpper]
  else
    match upperExpansions.lookup c.toNat with
    | some ns => ns.map Char.ofNat
    | none =>
      match CaseRun.lookup upperRuns c.toNat with
      | some n => [Char.ofNat n]
      | none => [c]

/-- Whether a character has case. -/
def isCased (c : Char) : Bool :=
  inRanges casedRanges c.toNat

/-- Whether a character is passed over in the search for a cased neighbour. -/
def isCaseIgnorable (c : Char) : Bool :=
  inRanges caseIgnorableRanges c.toNat

/-- Whether the nearest character that is not passed over has case. -/
def facesCased (cs : List Char) : Bool :=
  match cs.dropWhile isCaseIgnorable with
  | [] => false
  | c :: _ => isCased c

/-- Lower case of the characters `after` that follow `before`, which is kept in
reverse.  A capital sigma behind a cased character and before none is final. -/
def lowerAfter (before : List Char) : List Char → List Char
  | [] => []
  | c :: after =>
    (if c == 'Σ' then
      [if facesCased before && !facesCased after then 'ς' else 'σ']
    else lowerChar c) ++ lowerAfter (c :: before) after

/-- Lower case of a text. -/
def lower (text : String) : String :=
  String.ofList (lowerAfter [] text.toList)

/-- Upper case of a text. -/
def upper (text : String) : String :=
  String.ofList (text.toList.flatMap upperChar)

/-- Without a capital sigma the surroundings of a character do not matter. -/
theorem lowerAfter_eq_flatMap {before cs : List Char} (noSigma : 'Σ' ∉ cs) :
    lowerAfter before cs = cs.flatMap lowerChar := by
  induction cs generalizing before with
  | nil => rfl
  | cons c rest ih =>
    have hc : (c == 'Σ') = false := by
      simp only [beq_eq_false_iff_ne, ne_eq]
      rintro rfl
      exact noSigma (List.mem_cons_self ..)
    have hrest : 'Σ' ∉ rest := fun h => noSigma (List.mem_cons_of_mem _ h)
    simp [lowerAfter, hc, ih hrest]

/-- An ASCII character becomes one ASCII character. -/
theorem lowerChar_ascii {c : Char} (ascii : c.toNat < 0x80) : lowerChar c = [c.toLower] := by
  simp [lowerChar, ascii]

end Phraseology.Text
