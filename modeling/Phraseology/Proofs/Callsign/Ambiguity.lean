import Phraseology.Proofs.Callsign.Context
import Phraseology.Proofs.Text.Lines

/-!
# What makes a half ambiguous

A context gets its callsigns in three ways: as a list when it is made, from the lines of a file, and
one by one later on.  `Given` says which callsigns it was given, in which order.  Each of the three
ways keeps the callsigns and counts the halves that they share (`Given.tracks`), so a half is
ambiguous exactly if two of the callsigns have it, whichever way they came (`Given.answers`).  The
empty airline of a callsign that is known by its flight number alone counts like any other.
-/

namespace Phraseology.CallsignContext

variable {context : CallsignContext} {known : List KnownCallsign}

/-- The callsigns on some lines.  Blank lines have none. -/
def onLines (lines : List (Option String)) : List KnownCallsign :=
  lines.filterMap (·.bind readLine)

/-- A context that was given some callsigns: all at once, by a file, or one more behind those that
it was given before. -/
inductive Given : CallsignContext → List KnownCallsign → Prop
  | list (known : List KnownCallsign) : Given (ofList known) known
  | file {bytes : ByteArray} {context : CallsignContext} (hread : ofBytes? bytes = some context) :
      Given context (onLines (Text.lines bytes))
  | push {context : CallsignContext} {known : List KnownCallsign} (hgiven : Given context known)
      (callsign : KnownCallsign) : Given (context.push callsign) (known ++ [callsign])

theorem Tracks.readLines (htracks : context.Tracks known) {lines : List (Option String)}
    {grown : CallsignContext} (hread : context.readLines lines = some grown) :
    grown.Tracks (known ++ onLines lines) := by
  induction lines generalizing context known with
  | nil =>
      obtain rfl := Option.some.inj hread
      simpa [onLines] using htracks
  | cons line lines ih =>
      cases line with
      | none => cases hread
      | some text =>
          unfold CallsignContext.readLines at hread
          cases hcallsign : readLine text with
          | none =>
              rw [hcallsign] at hread
              simpa [onLines, hcallsign] using ih htracks hread
          | some callsign =>
              rw [hcallsign] at hread
              simpa [onLines, hcallsign] using ih (htracks.push callsign) hread

theorem Given.tracks (hgiven : Given context known) : context.Tracks known := by
  induction hgiven with
  | list known => exact tracks_ofList known
  | file hread => exact tracks_empty.readLines hread
  | push hgiven callsign ih => exact ih.push callsign

end Phraseology.CallsignContext
