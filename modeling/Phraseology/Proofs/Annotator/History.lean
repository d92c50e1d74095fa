import Mathlib.Data.List.Induction
import Phraseology.Annotator

/-!
# What a session has come to

Grammars, airlines and callsigns reach a session in any order, some of them from files
that are missing or malformed.  The transducer depends on two of them at once: it is
made anew with each grammar, and changed with each airline table.

`Annotator.after_only_latest` says that the order does not matter.  Of a whole history only the
last event that decided about the grammar counts, and the last airline table that was
brought: the transducer is the one that this grammar and this table make together.  An
event that fails changes nothing, unless it is the file of a grammar that is missing.

A session meets an event in one of five ways (`Annotator.Meets`), and everything that is
said of histories follows from these.
-/

namespace Phraseology

/-- What can happen in a session. -/
inductive SessionEvent where
  | loadGrammar (file : SourceFile)
  | setGrammar (grammar : Grammar)
  | loadAirlines (file : SourceFile)
  | setAirlines (airlines : AirlineTable)
  | loadContext (file : SourceFile)
  | pushCallsign (callsign : KnownCallsign)

namespace SessionEvent

/-- What an event decides about the grammar, if anything: that there is a new one, or,
where its file is missing, that there is none any more. -/
def grammar? : SessionEvent → Option (Option Grammar)
  | loadGrammar file =>
    match file.bytes with
    | none => some none
    | some bytes => (Grammar.ofBytes file.name bytes).toOption.map some
  | setGrammar grammar => some (some grammar)
  | _ => none

/-- The airline table that an event brings, if it brings one. -/
def airlines? : SessionEvent → Option AirlineTable
  | loadAirlines file => file.bytes.bind fun bytes => (AirlineTable.ofBytes bytes).toOption
  | setAirlines airlines => some airlines
  | _ => none

/-- What the last of some events to decide something has decided. -/
def latest? {α : Type} (decision? : SessionEvent → Option α) (events : List SessionEvent) :
    Option α :=
  (events.filterMap decision?).getLast?

theorem latest?_concat {α : Type} (decision? : SessionEvent → Option α)
    (events : List SessionEvent) (event : SessionEvent) :
    latest? decision? (events ++ [event]) = (decision? event).or (latest? decision? events) := by
  unfold latest?
  cases hdecision : decision? event with
  | none => simp [hdecision]
  | some decision => simp [hdecision]

end SessionEvent

namespace Annotator

open SessionEvent

/-- A session's answer to an event, and the session behind it. -/
def perform (annotator : Annotator) : SessionEvent → Except Failure Unit × Annotator
  | .loadGrammar file => annotator.loadGrammar file
  | .setGrammar grammar => (.ok (), annotator.setGrammar grammar)
  | .loadAirlines file => annotator.loadAirlines file
  | .setAirlines airlines => (.ok (), annotator.setAirlines airlines)
  | .loadContext file => annotator.loadContext file
  | .pushCallsign callsign => (.ok (), annotator.pushCallsign callsign)

/-- The session behind some events, the first event first. -/
def after (settings : Settings) (events : List SessionEvent) : Annotator :=
  events.foldl (fun annotator event => (annotator.perform event).2) (ofSettings settings)

theorem after_concat (settings : Settings) (events : List SessionEvent) (event : SessionEvent) :
    after settings (events ++ [event]) = ((after settings events).perform event).2 := by
  rw [after, after, List.foldl_append]
  rfl

/-! ## One event -/

/-- The ways in which a session meets an event, and what the event decides in each. -/
inductive Meets (annotator : Annotator) (event : SessionEvent) :
    Except Failure Unit × Annotator → Prop
  | refuses (failure : Failure) (grammar : event.grammar? = none)
      (airlines : event.airlines? = none) : Meets annotator event (.error failure, annotator)
  | losesGrammar (path : String) (missing : event = .loadGrammar { path, bytes := none }) :
      Meets annotator event
        (.error (.grammarUnavailable path), { annotator with transducer := none })
  | takesGrammar (grammar : Grammar) (decides : event.grammar? = some (some grammar))
      (airlines : event.airlines? = none) :
      Meets annotator event (.ok (), annotator.setGrammar grammar)
  | takesAirlines (airlines : AirlineTable) (grammar : event.grammar? = none)
      (decides : event.airlines? = some airlines) :
      Meets annotator event (.ok (), annotator.setAirlines airlines)
  | takesContext (context : CallsignContext) (grammar : event.grammar? = none)
      (airlines : event.airlines? = none) :
      Meets annotator event (.ok (), { annotator with context })

theorem meets_loadGrammar (annotator : Annotator) (file : SourceFile) :
    annotator.Meets (.loadGrammar file) (annotator.loadGrammar file) := by
  obtain ⟨path, bytes⟩ := file
  cases bytes with
  | none => exact .losesGrammar path rfl
  | some bytes =>
      simp only [loadGrammar]
      cases hread : Grammar.ofBytes (SourceFile.name ⟨path, some bytes⟩) bytes with
      | error failure => exact .refuses failure (by simp [grammar?, hread, Except.toOption]) rfl
      | ok grammar =>
          exact .takesGrammar grammar (by simp [grammar?, hread, Except.toOption]) rfl

theorem meets_loadAirlines (annotator : Annotator) (file : SourceFile) :
    annotator.Meets (.loadAirlines file) (annotator.loadAirlines file) := by
  unfold loadAirlines
  cases hbytes : file.bytes with
  | none => exact .refuses _ rfl (by simp [airlines?, hbytes])
  | some bytes =>
      simp only
      cases hread : AirlineTable.ofBytes bytes with
      | error cause => exact .refuses _ rfl (by simp [airlines?, hbytes, hread, Except.toOption])
      | ok airlines =>
          exact .takesAirlines airlines rfl (by simp [airlines?, hbytes, hread, Except.toOption])

theorem meets_loadContext (annotator : Annotator) (file : SourceFile) :
    annotator.Meets (.loadContext file) (annotator.loadContext file) := by
  unfold loadContext
  cases file.bytes.bind CallsignContext.ofBytes? with
  | none => exact .refuses _ rfl rfl
  | some context => exact .takesContext context rfl rfl

theorem meets_perform (annotator : Annotator) (event : SessionEvent) :
    annotator.Meets event (annotator.perform event) := by
  cases event with
  | loadGrammar file => exact annotator.meets_loadGrammar file
  | setGrammar grammar => exact .takesGrammar grammar rfl rfl
  | loadAirlines file => exact annotator.meets_loadAirlines file
  | setAirlines airlines => exact .takesAirlines airlines rfl rfl
  | loadContext file => exact annotator.meets_loadContext file
  | pushCallsign callsign => exact .takesContext (annotator.context.push callsign) rfl rfl

/-- A session whose transducer is made of a grammar, if there is one, and of the
session's airlines and settings. -/
def MadeOf (annotator : Annotator) (grammar : Option Grammar) (airlines : AirlineTable)
    (settings : Settings) : Prop :=
  annotator.settings = settings ∧ annotator.airlines = airlines ∧
    annotator.transducer = grammar.map (Transducer.ofGrammar · airlines settings)

/-- An event exchanges the grammar or the airlines that a session is made of. -/
theorem MadeOf.perform {annotator : Annotator} {grammar : Option Grammar}
    {airlines : AirlineTable} {settings : Settings}
    (hmade : annotator.MadeOf grammar airlines settings) (event : SessionEvent) :
    (annotator.perform event).2.MadeOf ((event.grammar?).getD grammar)
      ((event.airlines?).getD airlines) settings := by
  obtain ⟨hsettings, hairlines, htransducer⟩ := hmade
  have hmeets := annotator.meets_perform event
  generalize annotator.perform event = result at hmeets
  cases hmeets with
  | refuses _ hgrammar hnone =>
      rw [hgrammar, hnone]
      exact ⟨hsettings, hairlines, htransducer⟩
  | losesGrammar path hmissing =>
      rw [hmissing]
      exact ⟨hsettings, hairlines, rfl⟩
  | takesGrammar read hgrammar hnone =>
      rw [hgrammar, hnone]
      refine ⟨hsettings, hairlines, ?_⟩
      rw [← hsettings, ← hairlines]
      rfl
  | takesAirlines table hgrammar hdecides =>
      rw [hgrammar, hdecides]
      refine ⟨hsettings, rfl, ?_⟩
      -- changing the airlines of a transducer is making it anew of its own grammar
      show annotator.transducer.map (·.withAirlines table) = _
      rw [htransducer, Option.map_map]
      rfl
  | takesContext _ hgrammar hnone =>
      rw [hgrammar, hnone]
      exact ⟨hsettings, hairlines, htransducer⟩

/-- An event that fails leaves the session as it is, unless the file of a grammar is
missing: then the session has no grammar any more. -/
theorem perform_of_error {annotator : Annotator} {event : SessionEvent} {failure : Failure}
    (hfails : (annotator.perform event).1 = .error failure) :
    (annotator.perform event).2 = annotator ∨
      ∃ path, event = .loadGrammar { path, bytes := none } ∧
        failure = .grammarUnavailable path ∧
        (annotator.perform event).2 = { annotator with transducer := none } := by
  have hmeets := annotator.meets_perform event
  generalize annotator.perform event = result at hmeets hfails
  cases hmeets with
  | refuses _ _ _ => exact Or.inl rfl
  | losesGrammar path hmissing => exact Or.inr ⟨path, hmissing, (Except.error.inj hfails).symm, rfl⟩
  | takesGrammar _ _ _ => exact absurd hfails (by simp)
  | takesAirlines _ _ _ => exact absurd hfails (by simp)
  | takesContext _ _ _ => exact absurd hfails (by simp)

/-! ## A history -/

theorem madeOf_after (settings : Settings) (events : List SessionEvent) :
    (after settings events).MadeOf (latest? grammar? events).join
      ((latest? airlines? events).getD .empty) settings := by
  induction events using List.reverseRecOn with
  | nil => exact ⟨rfl, rfl, rfl⟩
  | append_singleton events event ih =>
      have hnext := ih.perform event
      rw [after_concat, latest?_concat, latest?_concat]
      cases hgrammar : event.grammar? with
      | none =>
          cases hairlines : event.airlines? <;> simpa [hgrammar, hairlines] using hnext
      | some grammar =>
          cases hairlines : event.airlines? <;> simpa [hgrammar, hairlines] using hnext

/-- **Only what was decided last counts.**  Behind any events a session still has its
settings, it has the airlines that were brought last, and it has a transducer exactly if
the last event that decided about the grammar brought one.  The transducer is then the one
that is made of this grammar, these airlines and the settings.  The load of a grammar whose
file is missing fails and takes the transducer away, and any other load that fails leaves
the whole session as it is. -/
theorem after_only_latest (settings : Settings) (events : List SessionEvent) :
    (after settings events).settings = settings ∧
    (after settings events).airlines = (latest? airlines? events).getD .empty ∧
    ((after settings events).transducer.isSome ↔
      ∃ grammar, latest? grammar? events = some (some grammar)) ∧
    (∀ grammar, latest? grammar? events = some (some grammar) →
      (after settings events).transducer =
        some (.ofGrammar grammar (after settings events).airlines settings)) ∧
    (∀ path, (after settings events).perform (.loadGrammar { path, bytes := none }) =
      (.error (.grammarUnavailable path), { after settings events with transducer := none })) ∧
    ∀ event failure, ((after settings events).perform event).1 = .error failure →
      (∀ path, event ≠ .loadGrammar { path, bytes := none }) →
      ((after settings events).perform event).2 = after settings events := by
  obtain ⟨hsettings, hairlines, htransducer⟩ := madeOf_after settings events
  refine ⟨hsettings, hairlines, ?_, ?_, fun path => rfl, ?_⟩
  · rw [htransducer, Option.isSome_map]
    cases latest? grammar? events with
    | none => simp
    | some decision => cases decision <;> simp
  · intro grammar hgrammar
    rw [htransducer, hgrammar, hairlines]
    rfl
  · intro event failure hfails hpresent
    rcases perform_of_error hfails with hsame | ⟨path, hmissing, -⟩
    · exact hsame
    · exact absurd hmissing (hpresent path)

end Annotator

end Phraseology
