import Phraseology.Callsign.Basic
import Phraseology.Command.Basic

/-!
# Utterances

An annotated utterance is for one callsign and holds commands.  The callsign is
cut out first, then the commands one after the other.  Commands that are not
legal are set aside, and an utterance without a legal one holds the stand-in
without a concept.
-/

namespace Phraseology

/-- The callsign and the commands of an utterance. -/
structure Utterance where
  callsign : Callsign
  commands : List Command
  /-- Commands that are not legal. -/
  dropped : List Command
deriving Repr

namespace Utterance

/-- An utterance in which nothing was said. -/
def empty : Utterance where
  callsign := .absent
  commands := []
  dropped := []

theorem length_find?_lt {opens : String → Bool} {closes : String → String → Bool} :
    ∀ {tokens : List Token} {cut : Cut}, Cut.find? opens closes tokens = some cut →
      (cut.before ++ cut.after).length < tokens.length
  | [], _, h => by simp [Cut.find?] at h
  | token :: rest, cut, h => by
    unfold Cut.find? at h
    split at h
    · have hle : ∀ ts : List Token, (Cut.throughCloser (closes token.word) ts).2.length ≤
          ts.length := by
        intro ts
        induction ts with
        | nil => simp [Cut.throughCloser]
        | cons t ts ih =>
          unfold Cut.throughCloser
          split
          · simp
          · simp only [List.length_cons]
            omega
      simp only [Option.some.injEq] at h
      subst h
      have := hle rest
      simp only [List.nil_append, List.length_cons]
      omega
    · obtain ⟨inner, hinner, rfl⟩ := Option.map_eq_some_iff.1 h
      have := length_find?_lt hinner
      simp only [List.cons_append, List.length_cons]
      omega

theorem length_cutCommand_lt {frame span rest : Frame}
    (h : frame.cutCommand = (some span, rest)) :
    rest.tokens.length < frame.tokens.length := by
  unfold Frame.cutCommand Frame.cutSpan at h
  split at h
  · simp at h
  · next cut hcut =>
    simp only [Prod.mk.injEq, Option.some.injEq] at h
    obtain ⟨-, rfl⟩ := h
    exact length_find?_lt hcut

/-- The commands of a frame in their order, up to the first that cannot be read. -/
def commandsOf (frame : Frame) : Except Failure (List Command) :=
  match h : frame.cutCommand with
  | (none, _) => .ok []
  | (some span, rest) =>
    match Command.ofFrame span with
    | .error failure => .error failure
    | .ok command =>
      have := length_cutCommand_lt h
      (commandsOf rest).map (command :: ·)
termination_by frame.tokens.length

/-- The callsign of a sentence in which it was cut out. -/
def callsignOf (sentence : Frame) (span : Option Frame) (airlines : AirlineTable)
    (context : CallsignContext) : Except Failure Callsign :=
  let found :=
    match span with
    | some span => Callsign.ofFrame span airlines context
    | none => .ok .absent
  found.map fun callsign =>
    if callsign.isCallsign then callsign else callsign.withNoise sentence

/-- An utterance of a callsign and of commands that may not be legal. -/
def ofCommands (callsign : Callsign) (commands : List Command) : Utterance :=
  let legal := commands.filter (·.legal)
  { callsign
    commands := if legal.isEmpty then [.noConcept] else legal
    dropped := commands.filter (!·.legal) }

/-- The utterance that a frame annotates. -/
def ofFrame (sentence : Frame) (airlines : AirlineTable) (context : CallsignContext) :
    Except Failure Utterance :=
  let (span, rest) := sentence.cutTag "callsign"
  match callsignOf sentence span airlines context with
  | .error failure => .error failure
  | .ok callsign => (commandsOf rest).map (ofCommands callsign)

/-- The utterance that a frame annotates, if there is a frame. -/
def ofFrame? (sentence : Option Frame) (airlines : AirlineTable) (context : CallsignContext) :
    Except Failure Utterance :=
  match sentence with
  | some sentence => ofFrame sentence airlines context
  | none => .ok empty

end Utterance

end Phraseology
