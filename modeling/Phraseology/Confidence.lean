import Phraseology.Decimal.Layout

/-!
# Confidence scores

The confidences of the tokens of a field are combined into one score in one of
several ways, or not at all.  A score is rounded to four places before it is
shown, and its text always has a point.
-/

namespace Phraseology

/-- How confidences combine into a score. -/
inductive ConfidenceMode where
  | off
  | min
  | prod
  | amean
  | gmean
deriving DecidableEq, Repr

namespace ConfidenceMode

/-- All modes, in the order in which they are listed. -/
def all : List ConfidenceMode := [off, min, prod, amean, gmean]

/-- The name of a mode. -/
def name : ConfidenceMode → String
  | off => "off"
  | min => "min"
  | prod => "prod"
  | amean => "amean"
  | gmean => "gmean"

/-- The mode with a name. -/
def ofName? (text : String) : Option ConfidenceMode :=
  all.find? (·.name == text)

/-- Whether a mode gives scores. -/
def isActive (mode : ConfidenceMode) : Bool :=
  mode != off

/-- The smaller of two numbers, where a number wins over none. -/
def lesser (x y : Float) : Float :=
  if y < x || x.isNaN then y else x

/-- The score of a field without tokens. -/
def emptyScore : Float := -1.0

/-- The product of some confidences. -/
def product (values : List Float) : Float :=
  values.foldl (· * ·) 1.0

/-- The score of some confidences, if the mode gives one.  The sum of the
arithmetic mean starts at the negative zero, which adds nothing to any number. -/
def aggregate (mode : ConfidenceMode) (values : List Float) : Option Float :=
  match mode with
  | off => none
  | mode =>
    if values.isEmpty then some emptyScore
    else
      let count := Float.ofNat values.length
      some <|
        match mode with
        | prod => product values
        | amean => values.foldl (· + ·) (-0.0) / count
        | gmean => (product values).pow (1.0 / count)
        | _ => values.foldl lesser (1.0 / 0.0)

/-- A mode gives a score exactly if it is active, whatever the confidences. -/
theorem aggregate_isSome (mode : ConfidenceMode) (values : List Float) :
    (mode.aggregate values).isSome = mode.isActive := by
  cases mode <;> simp only [aggregate, isActive] <;> try rfl
  all_goals split <;> rfl

end ConfidenceMode

/-- A score rounded to four places, halves away from zero. -/
def roundScore (score : Float) : Float :=
  (score * 10000.0).round / 10000.0

/-- The text of a score: rounded, and with a point if the score is finite. -/
def scoreText (score : Float) : String :=
  let text := Decimal.plainText (roundScore score)
  if text.toList.contains '.' || !score.isFinite then text else text ++ ".0"

end Phraseology
