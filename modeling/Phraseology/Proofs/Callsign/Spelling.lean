import Phraseology.Callsign.Basic
import Phraseology.Proofs.Callsign.Completion
import Phraseology.Proofs.Command.Values

/-!
# The text of a callsign

A callsign is completed only to one that is known in the session (`Completion.mem_of_complete?`).
Otherwise it keeps the flight number that was spoken, which is empty if nothing is written for
the words of its span (`ofHalves_cases`, `eq_empty_iff_of_spokenNumber`).

The files that tables and sessions are read from are cut into words, so their halves have no
blank characters (`AirlineTable.spelled_of_ofBytes`, `CallsignContext.spelled_of_ofBytes?`).
Then the text of a callsign is a word, also where its flight number is empty
(`Callsign.Written.isWord_code`).
-/

namespace Phraseology

/-! ## Tables and sessions -/

namespace AirlineTable

/-- Whether all designators of a table are words. -/
def Spelled (table : AirlineTable) : Prop :=
  ∀ airline ∈ table.entries, Text.IsWord airline.code

variable {table grown : AirlineTable} {name code line : String} {airline : Airline} {number : Nat}

theorem Spelled.isWord_code (hspelled : table.Spelled) (hcode : table.codeFor? name = some code) :
    Text.IsWord code := by
  obtain ⟨airline, hfind, rfl⟩ := Option.map_eq_some_iff.mp hcode
  obtain ⟨place, -, hentry⟩ := Option.bind_eq_some_iff.mp hfind
  exact hspelled airline (Array.mem_of_getElem? hentry)

theorem spelled_empty : empty.Spelled := by
  intro airline hairline
  simp [empty] at hairline

theorem Spelled.insert (hspelled : table.Spelled) (hairline : Text.IsWord airline.code)
    (hinsert : table.insert airline = .ok grown) : grown.Spelled := by
  unfold AirlineTable.insert at hinsert
  split at hinsert
  · cases hinsert
  · obtain rfl := Except.ok.inj hinsert
    intro other hother
    rcases Array.mem_push.mp hother with hknown | rfl
    · exact hspelled other hknown
    · exact hairline

theorem isWord_of_readLine (hread : readLine number line = .ok (some airline)) :
    Text.IsWord airline.code := by
  unfold readLine at hread
  split at hread
  · cases hread
  · next code name hwords =>
      cases hread
      have hcode : code ∈ Text.words line := by simp [hwords]
      exact Text.isWord_of_mem_words hcode
  · cases hread

theorem Spelled.readLines (hspelled : table.Spelled) {lines : List (Option String)}
    (hread : table.readLines number lines = .ok grown) : grown.Spelled := by
  induction lines generalizing table number with
  | nil =>
      obtain rfl := Except.ok.inj hread
      exact hspelled
  | cons line lines ih =>
      cases line with
      | none => cases hread
      | some line =>
          unfold AirlineTable.readLines at hread
          split at hread
          · cases hread
          · exact ih hspelled hread
          · next airline hline =>
              split at hread
              · cases hread
              · next larger hinsert =>
                  exact ih (hspelled.insert (isWord_of_readLine hline) hinsert) hread

/-- The designators of a table that is read from a file are words. -/
theorem spelled_of_ofBytes {bytes : ByteArray} (hread : ofBytes bytes = .ok table) :
    table.Spelled :=
  spelled_empty.readLines hread

end AirlineTable

namespace CallsignContext

/-- Whether the flight numbers of a session are words, and its airlines have no blank
characters. -/
def Spelled (context : CallsignContext) : Prop :=
  ∀ known ∈ context.toList, Text.IsSolid known.airline ∧ Text.IsWord known.flightNumber

variable {context grown : CallsignContext} {callsign : KnownCallsign} {line : String}

theorem spelled_empty : empty.Spelled := by
  intro known hknown
  simp [empty, toList] at hknown

theorem Spelled.push (hspelled : context.Spelled) (hairline : Text.IsSolid callsign.airline)
    (hnumber : Text.IsWord callsign.flightNumber) : (context.push callsign).Spelled := by
  intro known hknown
  rw [toList, CallsignContext.push, Array.toList_push, List.mem_append] at hknown
  rcases hknown with hknown | hlast
  · exact hspelled known hknown
  · obtain rfl := List.mem_singleton.mp hlast
    exact ⟨hairline, hnumber⟩

theorem spelled_of_readLine (hread : readLine line = some callsign) :
    Text.IsSolid callsign.airline ∧ Text.IsWord callsign.flightNumber := by
  have hwords : ∀ word ∈ Text.words line, Text.IsWord word := fun _ => Text.isWord_of_mem_words
  unfold readLine at hread
  split at hread
  · cases hread
  · next number hline =>
      cases hread
      exact ⟨show Text.IsSolid "" by decide, hwords number (by simp [hline])⟩
  · next airline number remark hline =>
      cases hread
      exact ⟨(hwords airline (by simp [hline])).solid, hwords number (by simp [hline])⟩

theorem Spelled.readLines (hspelled : context.Spelled) {lines : List (Option String)}
    (hread : context.readLines lines = some grown) : grown.Spelled := by
  induction lines generalizing context with
  | nil =>
      obtain rfl := Option.some.inj hread
      exact hspelled
  | cons line lines ih =>
      cases line with
      | none => cases hread
      | some line =>
          unfold CallsignContext.readLines at hread
          split at hread
          · next callsign hline =>
              obtain ⟨hairline, hnumber⟩ := spelled_of_readLine hline
              exact ih (hspelled.push hairline hnumber) hread
          · exact ih hspelled hread

/-- The callsigns of a session that is read from a file are spelled. -/
theorem spelled_of_ofBytes? {bytes : ByteArray} (hread : ofBytes? bytes = some context) :
    context.Spelled :=
  spelled_empty.readLines hread

end CallsignContext

/-! ## Completions -/

namespace Completion

variable {airlines : AirlineTable} {context : CallsignContext} {airline : AirlinePart}
  {number word : Option String} {found : String × String}

/-- What is looked up is a known callsign. -/
theorem mem_of_lookUp? (hfound : lookUp? context airline number = some found) :
    { airline := found.1, flightNumber := found.2 } ∈ context.toList := by
  have hnumber : ∀ candidates known, uniqueWithNumber? context candidates = some known →
      known ∈ context.toList := by
    intro candidates known hunique
    obtain ⟨candidate, -, hsingle⟩ := List.exists_of_findSome?_eq_some hunique
    split at hsingle
    · cases hsingle
    · exact List.mem_of_find?_eq_some hsingle
  unfold lookUp? at hfound
  -- by both halves, by the airline alone, by the flight number alone
  split at hfound
  · obtain ⟨restored, hfind, rfl⟩ := Option.map_eq_some_iff.mp hfound
    have hany := List.find?_some hfind
    obtain ⟨known, hknown, hsame⟩ := List.any_eq_true.mp hany
    obtain ⟨hairline, hnumber⟩ := Bool.and_eq_true_iff.mp hsame
    rw [← eq_of_beq hairline, ← eq_of_beq hnumber]
    exact hknown
  · obtain ⟨known, hunique, rfl⟩ := Option.map_eq_some_iff.mp hfound
    unfold uniqueWithAirline? at hunique
    split at hunique
    · cases hunique
    · have hairline := List.find?_some hunique
      rw [← eq_of_beq hairline]
      exact List.mem_of_find?_eq_some hunique
  · obtain ⟨known, hunique, rfl⟩ := Option.map_eq_some_iff.mp hfound
    exact hnumber _ known hunique
  · cases hfound

/-- A callsign is completed to a known one. -/
theorem mem_of_complete? (hfound : complete? airlines context airline number word = some found) :
    { airline := found.1, flightNumber := found.2 } ∈ context.toList := by
  have hrequest : Request.complete? airlines context { airline, number, word } = some found :=
    hfound
  rw [Request.complete?_eq_findSome?_tried] at hrequest
  obtain ⟨step, -, hmatch⟩ := List.exists_of_findSome?_eq_some hrequest
  exact mem_of_lookUp? hmatch

/-- The halves of a completion are those of a known callsign, or they are left as they are. -/
theorem complete_cases (airlines : AirlineTable) (context : CallsignContext)
    (airline : AirlinePart) (number word : Option String) :
    (∃ known ∈ context.toList,
        (complete airlines context airline number word).1 = .code known.airline ∧
        (complete airlines context airline number word).2.1 = some known.flightNumber) ∨
      (complete airlines context airline number word).1 = airline ∧
        (complete airlines context airline number word).2.1 = number := by
  unfold complete
  split
  · next code restored hfound => exact .inl ⟨_, mem_of_complete? hfound, rfl, rfl⟩
  · exact .inr ⟨rfl, rfl⟩

end Completion

/-! ## Callsigns -/

namespace Callsign

variable {airlines : AirlineTable} {context : CallsignContext} {frame : Frame}
  {callsign : Callsign}

theorem spokenNumber_eq_ok_some_iff {span : Option Frame} {number : String} :
    spokenNumber span = .ok (some number) ↔
      ∃ frame ∈ spoken? span, Spoken.number? frame.contentWords = some number := by
  unfold spokenNumber
  cases spoken? span with
  | none => simp
  | some frame =>
      cases hnumber : Spoken.number? frame.contentWords <;>
        simp [hnumber, whenEnded, Except.map]

theorem eq_empty_iff_of_spokenNumber {span : Option Frame} {number : Option String}
    (hnumber : spokenNumber span = .ok number) :
    number = some "" ↔
      ∃ frame ∈ spoken? span, ∀ word ∈ frame.contentWords, Spoken.isSilent word = true := by
  constructor
  · rintro rfl
    obtain ⟨frame, hframe, hempty⟩ := spokenNumber_eq_ok_some_iff.mp hnumber
    exact ⟨frame, hframe, (Spoken.eq_empty_iff_of_number? hempty).mp rfl⟩
  · rintro ⟨frame, hframe, hsilent⟩
    rw [spokenNumber, Option.mem_def.mp hframe] at hnumber
    dsimp only at hnumber
    cases hspoken : Spoken.number? frame.contentWords with
    | none =>
        rw [hspoken] at hnumber
        cases hnumber
    | some text =>
        rw [hspoken] at hnumber
        obtain rfl := Except.ok.inj hnumber
        rw [(Spoken.eq_empty_iff_of_number? hspoken).mpr hsilent]

/-- The halves of a callsign are those of a known one, or the designator in a table, if any, and
the number that was spoken. -/
theorem ofHalves_cases (airlines : AirlineTable) (context : CallsignContext)
    (airlineFrame : Option Frame) (number : Option String) :
    (∃ known ∈ context.toList,
        (ofHalves airlines context airlineFrame number).1 = .code known.airline ∧
        (ofHalves airlines context airlineFrame number).2 = some known.flightNumber) ∨
      (∀ code, (ofHalves airlines context airlineFrame number).1 = .code code →
          ∃ name, airlines.codeFor? name = some code) ∧
        (ofHalves airlines context airlineFrame number).2 = number := by
  unfold ofHalves
  simp only
  split
  · next hsilent =>
      obtain ⟨-, hnumber⟩ := Bool.and_eq_true_iff.mp hsilent
      exact .inr ⟨by simp, (Option.isNone_iff_eq_none.mp hnumber).symm⟩
  · refine (Completion.complete_cases ..).imp_right fun ⟨hairline, hnumber⟩ =>
      ⟨fun code hcode => ?_, hnumber⟩
    rw [hairline] at hcode
    split at hcode
    · next word _ =>
        split at hcode
        · next found hresolve =>
            obtain rfl := AirlinePart.code.inj hcode
            exact ⟨_, hresolve⟩
        · cases hcode
    · cases hcode

/-- A callsign that is read is that of its two spans, with the number of the second. -/
theorem exists_of_ofFrame (hread : ofFrame frame airlines context = .ok callsign) :
    ∃ number,
      spokenNumber ((frame.cutTag "airline").2.cutTag "flightnumber").1 = .ok number ∧
        callsign = ofSpans airlines context (frame.cutTag "airline").1
          ((frame.cutTag "airline").2.cutTag "flightnumber").1 number := by
  unfold ofFrame at hread
  split at hread
  · cases hread
  · dsimp only at hread
    cases hnumber : spokenNumber ((frame.cutTag "airline").2.cutTag "flightnumber").1 with
    | error failure =>
        rw [hnumber] at hread
        cases hread
    | ok number =>
        rw [hnumber] at hread
        exact ⟨number, rfl, (Except.ok.inj hread).symm⟩

/-- What the text of a callsign comes from: its flight number is that of a known callsign, or it
is the one that was spoken, and then it is empty if all its words are silent; and with a table
and a session that are spelled, the whole is a word. -/
structure Written (airlines : AirlineTable) (context : CallsignContext) (callsign : Callsign) :
    Prop where
  number : (∃ known ∈ context.toList,
      callsign.airline = .code known.airline ∧
        callsign.flightNumber = some known.flightNumber) ∨
    spokenNumber callsign.flightNumberFrame = .ok callsign.flightNumber ∧
      (callsign.flightNumber = some "" ↔ ∃ span ∈ spoken? callsign.flightNumberFrame,
        ∀ word ∈ span.contentWords, Spoken.isSilent word = true)
  code : airlines.Spelled → context.Spelled → Text.IsWord callsign.code

theorem isSolid_of_spokenNumber {span : Option Frame} {number : String}
    (hnumber : spokenNumber span = .ok (some number)) : Text.IsSolid number := by
  obtain ⟨frame, -, hspoken⟩ := spokenNumber_eq_ok_some_iff.mp hnumber
  exact Spoken.isSolid_of_number? hspoken

theorem written_ofSpans {airlineFrame numberFrame : Option Frame} {number : Option String}
    (hnumber : spokenNumber numberFrame = .ok number) :
    (ofSpans airlines context airlineFrame numberFrame number).Written airlines context := by
  have hcases := ofHalves_cases airlines context airlineFrame number
  constructor
  · refine hcases.imp_right fun ⟨_, hspoken⟩ => ?_
    have hsame : (ofSpans airlines context airlineFrame numberFrame number).flightNumber =
        number := hspoken
    rw [hsame]
    exact ⟨hnumber, eq_empty_iff_of_spokenNumber hnumber⟩
  · intro hairlines hcontext
    generalize hcallsign : ofSpans airlines context airlineFrame numberFrame number = callsign
    have hairline : (ofHalves airlines context airlineFrame number).1 = callsign.airline := by
      rw [← hcallsign]
      rfl
    have hflight : (ofHalves airlines context airlineFrame number).2 =
        callsign.flightNumber := by
      rw [← hcallsign]
      rfl
    rw [hairline, hflight] at hcases
    unfold code
    split
    · rcases hcases with ⟨known, hknown, hcode, hknownNumber⟩ | ⟨hcodes, hspoken⟩
      · obtain ⟨hsolid, hword⟩ := hcontext known hknown
        rw [hcode, hknownNumber]
        exact hword.prepend hsolid
      · have hsolid : Text.IsSolid (callsign.flightNumber.getD "_NO_FLIGHTNUMBER") := by
          cases hspokenNumber : callsign.flightNumber with
          | none => exact show Text.IsSolid "_NO_FLIGHTNUMBER" by decide
          | some text =>
              rw [hspokenNumber] at hspoken
              rw [← hspoken] at hnumber
              exact isSolid_of_spokenNumber hnumber
        refine Text.IsWord.append ?_ hsolid
        cases hpart : callsign.airline with
        | code code =>
            obtain ⟨name, hname⟩ := hcodes code hpart
            exact hairlines.isWord_code hname
        | unknown => exact show Text.IsWord "UNKNOWN_AIRLINE_" by decide
        | absent => exact show Text.IsWord "NO_AIRLINE_" by decide
    · decide

theorem written_of_ofFrame (hread : ofFrame frame airlines context = .ok callsign) :
    callsign.Written airlines context := by
  obtain ⟨number, hnumber, rfl⟩ := exists_of_ofFrame hread
  exact written_ofSpans hnumber

theorem written_absent (airlines : AirlineTable) (context : CallsignContext) :
    absent.Written airlines context := by
  have hnone : absent = ofSpans airlines context none none none := rfl
  rw [hnone]
  exact written_ofSpans rfl

theorem Written.withNoise (hwritten : callsign.Written airlines context) (sentence : Frame) :
    (callsign.withNoise sentence).Written airlines context :=
  ⟨hwritten.number, hwritten.code⟩

end Callsign

end Phraseology
