import Phraseology.Token
import Phraseology.Vocabulary

/-!
# Clearing a sentence before words are skipped

Two steps come before the skipping phase.  Words that the grammar can never put
out may be dropped, and a speaker who starts again with a different airline is
taken at the last word: all before the last airline is dropped.
-/

namespace Phraseology

/-- A sentence without the words that the grammar can never put out. -/
def dropFluff (vocabulary : Vocabulary) (sentence : List String) : List String :=
  sentence.filter fun token => vocabulary.contains (Token.observation token)

/-- The place of the last airline in a sentence. -/
def lastAirline? (airlines : Std.TreeSet String) (sentence : List String) : Option Nat :=
  let n := sentence.length
  (sentence.reverse.findIdx? fun token => airlines.contains (Token.observation token)).map
    fun fromEnd => n - 1 - fromEnd

/-- Whether two different airlines occur in a sentence. -/
def mentionsTwo (airlines : Std.TreeSet String) (sentence : List String) : Bool :=
  match (sentence.map Token.observation).filter airlines.contains with
  | [] => false
  | first :: rest => rest.any (· != first)

/-- A sentence from its last airline on, if two different ones occur and the last
one stands no later than `cutoff`. -/
def dropFalseStart (airlines : Std.TreeSet String) (cutoff : Nat) (sentence : List String) :
    List String :=
  if mentionsTwo airlines sentence then
    match lastAirline? airlines sentence with
    | some last => if last ≤ cutoff then sentence.drop last else sentence
    | none => sentence
  else sentence

end Phraseology
