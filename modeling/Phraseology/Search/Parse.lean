import Std.Data.TreeSet
import Phraseology.Text.Blank

/-!
# Parses and their ranking

A parse is a tagged sentence with the price of getting there.  Parses are ranked
by the words they skip, then by their tags, then by their tokens, and among
parses with the same tokens only the first is kept.  Parses that were closed by
force take the place of complete ones only if they skip fewer words.
-/

namespace Phraseology

/-- The price of a parse. -/
structure ParseCost where
  /-- Words that are left unexplained, noise apart. -/
  skips : Nat
  /-- Tags left open on the way, and words left unread at the end. -/
  tags : Nat
deriving DecidableEq, Repr

/-- A tagged sentence and the words that are not in it. -/
structure Parse where
  tokens : List String
  cost : ParseCost
  skipped : List String
deriving DecidableEq, Repr

namespace Parse

/-- The tokens joined by spaces. -/
def render (parse : Parse) : String :=
  Text.unwords parse.tokens

/-- The order of two parses. -/
def order (a b : Parse) : Ordering :=
  (compare a.cost.skips b.cost.skips).then <|
    (compare a.cost.tags b.cost.tags).then <| compare a.tokens b.tokens

/-- Whether a parse may stand before another one. -/
def notAfter (a b : Parse) : Bool :=
  (order a b).isLE

/-- Parses in their order; equal ones stay as they were found. -/
def sort (parses : List Parse) : List Parse :=
  parses.mergeSort notAfter

/-- The parses whose tokens have not been met before. -/
def distinctFrom (met : Std.TreeSet (List String)) : List Parse → List Parse
  | [] => []
  | parse :: rest =>
    if met.contains parse.tokens then distinctFrom met rest
    else parse :: distinctFrom (met.insert parse.tokens) rest

/-- The first parse with each list of tokens. -/
def distinct (parses : List Parse) : List Parse :=
  distinctFrom ∅ parses

/-- Whether forced parses, in their order, are preferred to complete ones. -/
def prefersForced (complete forced : List Parse) : Bool :=
  match forced, complete with
  | [], _ => false
  | _ :: _, [] => true
  | f :: _, c :: _ => f.cost.skips < c.cost.skips

/-- The ranking of complete and of forced parses, best first. -/
def rank (complete forced : List Parse) : List Parse :=
  let complete := sort complete
  let forced := sort forced
  distinct (if prefersForced complete forced then forced else complete)

end Parse

end Phraseology
