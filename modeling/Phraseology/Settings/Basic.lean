/-!
# Settings

`Settings` hold for a whole session and steer which words a search may skip and
what is done to an utterance before words are skipped.  `ConvertOptions` are
chosen anew for every utterance.
-/

namespace Phraseology

/-- The settings of a session. -/
structure Settings where
  /-- Words that may be skipped inside an open callsign. -/
  callsignWhitelist : List String := ["aeh", "ah", "correction", "ne"]
  /-- Words that are skipped at no cost. -/
  noiseMarkers : List String := ["_sil_", "_spn_", "_nsn_"]
  /-- The last place in a sentence at which an airline may correct another one. -/
  airlineCorrectionCutoff : Option Nat := some 20
  /-- Whether words that no sentence can hold are dropped unless told otherwise. -/
  ignoreFluffWords : Bool := false
  /-- Whether commands without a word of the sentence are left out of a search. -/
  pruneCommands : Bool := true
deriving DecidableEq, Repr

/-- The choices for one utterance. -/
structure ConvertOptions where
  /-- Milliseconds after which a phase of the search ends with what it has. -/
  timeout : Option Nat := none
  /-- Milliseconds after which a phase of the search fails, unless it can be
  cancelled; then they count as a `timeout`. -/
  hardDeadline : Option Nat := none
  /-- Whether words may be skipped when the sentence has no full parse. -/
  allowSkip : Bool := true
  ignoreFluffWords : Bool := false
deriving DecidableEq, Repr

/-- The choices that follow from the settings alone. -/
def ConvertOptions.ofSettings (settings : Settings) : ConvertOptions :=
  { ignoreFluffWords := settings.ignoreFluffWords }

end Phraseology
