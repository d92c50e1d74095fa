import Phraseology.Callsign.Completion
import Phraseology.Proofs.Callsign.Context

/-!
# Completing a callsign is sound and conservative

A completion goes by `Request.retries`: a request that matches no known callsign as it
is turns to other requests, in which a letter and an airline have changed places.
Retries of retries come to an end (`Request.wellFounded_retries`), so a request tries
finitely many requests in a fixed order (`Request.tried`), and the first that matches
directly is the one that completes it (`Request.CompletedBy`).

A direct match is a known callsign, and one that goes by a single half is the only known
callsign with that half (`Request.match?_eq_some`).  `complete_sound` carries this over
to completions.
-/

namespace Phraseology.Completion

theorem findSome?_filterMap {α β γ : Type} (f : α → Option β) (g : β → Option γ) (items : List α) :
    (items.filterMap f).findSome? g = items.findSome? fun item => (f item).bind g := by
  rw [← List.head?_filterMap, List.filterMap_filterMap, List.head?_filterMap]

theorem findSome?_flatMap {α β γ : Type} (f : α → List β) (g : β → Option γ) (items : List α) :
    (items.flatMap f).findSome? g = items.findSome? fun item => (f item).findSome? g := by
  rw [← List.head?_filterMap, List.filterMap_flatMap, List.head?_flatMap]
  simp only [List.head?_filterMap]

theorem findSome?_congr {α β : Type} {f g : α → Option β} {items : List α}
    (hsame : ∀ item ∈ items, f item = g item) : items.findSome? f = items.findSome? g := by
  induction items with
  | nil => rfl
  | cons item items ih =>
      rw [List.findSome?_cons, List.findSome?_cons, hsame item List.mem_cons_self]
      rw [ih fun other hother => hsame other (List.mem_cons_of_mem item hother)]

/-! ## One half alone -/

/-- The callsign with a given half among some known ones, unless several have it. -/
def single? (half : KnownCallsign → String) (known : List KnownCallsign) (value : String) :
    Option KnownCallsign :=
  if 2 ≤ known.countP (half · == value) then none else known.find? (half · == value)

theorem single?_eq_some {half : KnownCallsign → String} {known : List KnownCallsign}
    {value : String} {callsign : KnownCallsign}
    (hsingle : single? half known value = some callsign) :
    callsign ∈ known ∧ half callsign = value ∧ known.countP (half · == value) = 1 := by
  unfold single? at hsingle
  split at hsingle
  · cases hsingle
  · have hmem : callsign ∈ known := List.mem_of_find?_eq_some hsingle
    have hhalf : half callsign = value := by simpa using List.find?_some hsingle
    have hpos : 0 < known.countP (half · == value) :=
      List.countP_pos_iff.mpr ⟨callsign, hmem, by simpa using hhalf⟩
    exact ⟨hmem, hhalf, by omega⟩

theorem uniqueWithAirline?_ofList (known : List KnownCallsign) (code : String) :
    uniqueWithAirline? (.ofList known) code = single? (·.airline) known code := by
  simp [uniqueWithAirline?, single?, CallsignContext.isAmbiguousAirline_iff]

theorem uniqueWithNumber?_ofList (known : List KnownCallsign) (candidates : List String) :
    uniqueWithNumber? (.ofList known) candidates =
      candidates.findSome? (single? (·.flightNumber) known) := by
  simp only [uniqueWithNumber?, CallsignContext.isAmbiguousFlightNumber_iff,
    CallsignContext.toList_ofList]
  rfl

/-! ## Requests -/

/-- The halves of a callsign as they were heard, and the word that was heard for the
airline. -/
structure Request where
  airline : AirlinePart
  number : Option String
  word : Option String
deriving DecidableEq, Repr

namespace Request

variable {airlines : AirlineTable} {context : CallsignContext} {known : List KnownCallsign}
  {request retry step : Request} {found : String × String}

/-! ## The requests that are tried -/

/-- The known callsign that a request matches as it is. -/
def match? (context : CallsignContext) (request : Request) : Option (String × String) :=
  lookUp? context request.airline request.number

/-- The request in which the word for the airline is a letter in front of the number. -/
def spelled? (request : Request) : Option Request :=
  (request.word.bind Alphabet.letter?).map fun letter =>
    { airline := .absent
      number := some (String.ofList (letter :: (request.number.getD "").toList))
      word := none }

/-- The requests in which the letter in front of a number is the name of an airline. -/
def ofLeadingLetter (airlines : AirlineTable) (number : String) : List Request :=
  match number.toList with
  | [] => []
  | letter :: tail =>
    (Alphabet.spellings letter).filterMap fun word =>
      (airlines.codeFor? word).map fun code =>
        { airline := .code code
          number := if tail.isEmpty then none else some (String.ofList tail)
          word := none }

/-- The requests that a request turns to if it has no match, in their order. -/
def retries (airlines : AirlineTable) (request : Request) : List Request :=
  request.spelled?.toList ++
    if request.airline = .absent then request.number.toList.flatMap (ofLeadingLetter airlines)
    else []

/-- How many more times a letter and an airline can change places. -/
def rank (request : Request) : Nat :=
  (if request.word.isSome then 2 else 0) + if request.airline = .absent then 1 else 0

theorem rank_lt_of_mem_retries (hretry : retry ∈ request.retries airlines) :
    retry.rank < request.rank := by
  rcases List.mem_append.mp hretry with hspelled | hlettered
  · -- the word is used up, and the airline with it
    obtain ⟨letter, hletter, rfl⟩ := Option.map_eq_some_iff.mp (Option.mem_toList.mp hspelled)
    obtain ⟨word, hword, -⟩ := Option.bind_eq_some_iff.mp hletter
    calc rank _ = 1 := rfl
      _ < 2 := by decide
      _ ≤ request.rank := by simp [rank, hword]
  · split at hlettered
    · next hairline =>
        obtain ⟨number, -, hnumber⟩ := List.mem_flatMap.mp hlettered
        unfold ofLeadingLetter at hnumber
        split at hnumber
        · simp at hnumber
        · obtain ⟨word, -, hmap⟩ := List.mem_filterMap.mp hnumber
          obtain ⟨code, -, rfl⟩ := Option.map_eq_some_iff.mp hmap
          simp [rank, hairline]
    · simp at hlettered

/-- Retries of retries come to an end. -/
theorem wellFounded_retries (airlines : AirlineTable) :
    WellFounded fun retry request : Request => retry ∈ request.retries airlines :=
  Subrelation.wf rank_lt_of_mem_retries (InvImage.wf rank Nat.lt_wfRel.wf)

/-- All requests that are tried for a request, in their order. -/
def tried (airlines : AirlineTable) (request : Request) : List Request :=
  request :: (request.retries airlines).attach.flatMap fun retry => tried airlines retry.1
termination_by request.rank
decreasing_by exact rank_lt_of_mem_retries retry.2

theorem tried_eq (airlines : AirlineTable) (request : Request) :
    request.tried airlines = request :: (request.retries airlines).flatMap (tried airlines) := by
  rw [tried, List.flatMap_subtype (g := tried airlines) fun _ _ => rfl, List.unattach_attach]

/-! ## What completes a request -/

/-- The known callsign that a request is completed to. -/
def complete? (airlines : AirlineTable) (context : CallsignContext) (request : Request) :
    Option (String × String) :=
  Completion.complete? airlines context request.airline request.number request.word

section

variable (hknown : context.isEmpty = false)
include hknown

/-- Without a word for the airline, an airline and a number are only looked up. -/
theorem complete?_of_code (code : String) (number : Option String) :
    complete? airlines context { airline := .code code, number, word := none } =
      lookUp? context (.code code) number := by
  simp [complete?, Completion.complete?, hknown, fromSpelledAirline?]

theorem fromSpelledAirline?_eq (request : Request) :
    fromSpelledAirline? airlines context request.word request.number =
      request.spelled?.toList.findSome? (complete? airlines context) := by
  unfold fromSpelledAirline? spelled?
  cases request.word.bind Alphabet.letter? with
  | none => rfl
  | some letter =>
      simp [fromNumber?, complete?, Completion.complete?, hknown, fromSpelledAirline?]

theorem fromLeadingLetter?_eq (number : String) :
    fromLeadingLetter? airlines context number =
      (ofLeadingLetter airlines number).findSome? (complete? airlines context) := by
  unfold fromLeadingLetter? ofLeadingLetter
  cases number.toList with
  | nil => rfl
  | cons letter tail =>
      simp only [findSome?_filterMap, Option.bind_map, Function.comp_def, complete?_of_code hknown]

end

/-- The recursion that a completion follows. -/
theorem complete?_eq (airlines : AirlineTable) (context : CallsignContext) (request : Request) :
    request.complete? airlines context =
      if context.isEmpty then none
      else
        (request.match? context).or
          ((request.retries airlines).findSome? (complete? airlines context)) := by
  cases hknown : context.isEmpty with
  | true => simp [complete?, Completion.complete?, hknown]
  | false =>
      have hletter : (if request.airline = .absent then
            request.number.toList.flatMap (ofLeadingLetter airlines) else []).findSome?
              (complete? airlines context) =
          if request.airline = .absent then
            request.number.bind (fromLeadingLetter? airlines context) else none := by
        split
        · cases request.number with
          | none => rfl
          | some number => simp [fromLeadingLetter?_eq hknown]
        · rfl
      rw [retries, List.findSome?_append, ← fromSpelledAirline?_eq hknown, hletter]
      simp [complete?, Completion.complete?, hknown, match?]

theorem match?_of_isEmpty (hempty : context.isEmpty = true) (request : Request) :
    request.match? context = none := by
  have hcallsigns : context.toList = [] := by
    simpa [CallsignContext.isEmpty, CallsignContext.toList] using hempty
  unfold match? lookUp?
  split <;> simp [numberOf?, uniqueWithAirline?, uniqueWithNumber?, withLeadingZero, hcallsigns]

/-- A request is completed by the first of the requests tried that has a match. -/
theorem complete?_eq_findSome?_tried (request : Request) :
    request.complete? airlines context = (request.tried airlines).findSome? (match? context) := by
  cases hknown : context.isEmpty with
  | true =>
      have hnone : (request.tried airlines).findSome? (match? context) = none :=
        List.findSome?_eq_none_iff.mpr fun step _ => match?_of_isEmpty hknown step
      rw [complete?_eq, hknown, hnone]
      rfl
  | false =>
      induction request using (wellFounded_retries airlines).induction with
      | _ request ih =>
          rw [complete?_eq, hknown, tried_eq, List.findSome?_cons, findSome?_flatMap,
            ← findSome?_congr ih]
          cases request.match? context <;> rfl

/-- A request is completed to a callsign in a step: the step is the first of the requests
tried that has a match, and the callsign is its match. -/
def CompletedBy (airlines : AirlineTable) (context : CallsignContext)
    (request step : Request) (found : String × String) : Prop :=
  ∃ before after, request.tried airlines = before ++ step :: after ∧
    step.match? context = some found ∧ ∀ earlier ∈ before, earlier.match? context = none

theorem complete?_eq_some_iff :
    request.complete? airlines context = some found ↔
      ∃ step, request.CompletedBy airlines context step found := by
  rw [complete?_eq_findSome?_tried, List.findSome?_eq_some_iff]
  constructor
  · rintro ⟨before, step, after, htried, hmatch, hbefore⟩
    exact ⟨step, before, after, htried, hmatch, hbefore⟩
  · rintro ⟨step, before, after, htried, hmatch, hbefore⟩
    exact ⟨before, step, after, htried, hmatch, hbefore⟩

/-! ## What a match says -/

/-- A callsign that a request points to among some known ones: it has the halves that the
request has, up to a leading zero, and no other callsign has the half that the request
goes by when it has only one. -/
structure PointsTo (request : Request) (known : List KnownCallsign) (found : String × String) :
    Prop where
  mem : { airline := found.1, flightNumber := found.2 } ∈ known
  keeps_airline : ∀ code, request.airline = .code code → found.1 = code
  keeps_number : ∀ number, request.number = some number → found.2 ∈ withLeadingZero number
  unique_number : (∀ code, request.airline ≠ .code code) →
    known.countP (·.flightNumber == found.2) = 1
  unique_airline : request.number = none → known.countP (·.airline == found.1) = 1

theorem uniqueWithNumber?_eq_some {candidates : List String} {callsign : KnownCallsign}
    (hunique : uniqueWithNumber? (.ofList known) candidates = some callsign) :
    callsign ∈ known ∧ callsign.flightNumber ∈ candidates ∧
      known.countP (·.flightNumber == callsign.flightNumber) = 1 := by
  rw [uniqueWithNumber?_ofList] at hunique
  obtain ⟨candidate, hcandidate, hsingle⟩ := List.exists_of_findSome?_eq_some hunique
  obtain ⟨hmem, rfl, hcount⟩ := single?_eq_some hsingle
  exact ⟨hmem, hcandidate, hcount⟩

theorem numberOf?_eq_some {code number : String} {candidates : List String}
    (hfind : numberOf? (.ofList known) code candidates = some number) :
    { airline := code, flightNumber := number } ∈ known ∧ number ∈ candidates := by
  have hany := List.find?_some hfind
  simp only [CallsignContext.toList_ofList, List.any_eq_true, Bool.and_eq_true,
    beq_iff_eq] at hany
  obtain ⟨callsign, hmem, rfl, rfl⟩ := hany
  exact ⟨hmem, List.mem_of_find?_eq_some hfind⟩

theorem match?_eq_some (hmatch : request.match? (.ofList known) = some found) :
    request.PointsTo known found := by
  obtain ⟨airline, number, word⟩ := request
  cases airline with
  | code code =>
      cases number with
      | some number =>
          obtain ⟨restored, hfind, rfl⟩ := Option.map_eq_some_iff.mp hmatch
          obtain ⟨hmem, hrestored⟩ := numberOf?_eq_some hfind
          exact ⟨hmem, by simp, by simpa using hrestored, by simp, by simp⟩
      | none =>
          obtain ⟨callsign, hunique, rfl⟩ := Option.map_eq_some_iff.mp hmatch
          rw [uniqueWithAirline?_ofList] at hunique
          obtain ⟨hmem, rfl, hcount⟩ := single?_eq_some hunique
          exact ⟨hmem, by simp, by simp, by simp, fun _ => hcount⟩
  | unknown | absent =>
      cases number with
      | some number =>
          obtain ⟨callsign, hunique, rfl⟩ := Option.map_eq_some_iff.mp hmatch
          obtain ⟨hmem, hnumber, hcount⟩ := uniqueWithNumber?_eq_some hunique
          exact ⟨hmem, by simp, by simpa using hnumber, fun _ => hcount, by simp⟩
      | none => cases hmatch

/-- A known callsign with both its halves has itself as its match. -/
theorem match?_of_mem {callsign : KnownCallsign} (hmem : callsign ∈ known)
    (word : Option String) :
    match? (.ofList known)
        { airline := .code callsign.airline, number := some callsign.flightNumber, word } =
      some (callsign.airline, callsign.flightNumber) := by
  have hany : known.any (fun other => other.airline == callsign.airline &&
      other.flightNumber == callsign.flightNumber) = true :=
    List.any_eq_true.mpr ⟨callsign, hmem, by simp⟩
  simp [match?, lookUp?, numberOf?, withLeadingZero, hany]

end Request

/-! ## Completions -/

variable {airlines : AirlineTable} {context : CallsignContext} {known : List KnownCallsign}
  {airline part : AirlinePart} {number half word : Option String}

theorem complete_eq_true (hcomplete : complete airlines context airline number word =
      (part, half, true)) :
    ∃ found : String × String, part = .code found.1 ∧ half = some found.2 ∧
      Request.complete? airlines context { airline, number, word } = some found := by
  unfold complete at hcomplete
  split at hcomplete
  · next code completed hfound =>
      cases hcomplete
      exact ⟨(code, completed), rfl, rfl, hfound⟩
  · cases hcomplete

theorem complete_eq_false (hcomplete : complete airlines context airline number word =
      (part, half, false)) : part = airline ∧ half = number := by
  unfold complete at hcomplete
  split at hcomplete <;> cases hcomplete
  exact ⟨rfl, rfl⟩

/-- A callsign that is known with both its halves is completed to itself. -/
theorem complete_of_mem {callsign : KnownCallsign} (hmem : callsign ∈ known) :
    complete airlines (.ofList known) (.code callsign.airline) (some callsign.flightNumber) word =
      (.code callsign.airline, some callsign.flightNumber, true) := by
  have hfound : Request.complete? airlines (.ofList known)
      { airline := .code callsign.airline, number := some callsign.flightNumber, word } =
        some (callsign.airline, callsign.flightNumber) :=
    Request.complete?_eq_some_iff.mpr
      ⟨_, [], _, Request.tried_eq airlines _, Request.match?_of_mem hmem word, by simp⟩
  unfold Request.complete? at hfound
  simp only [complete, hfound]

/-- Completing is sound and conservative.  A completed callsign is one of those known, and
the half by which a step found it belongs to no other.  Without a completion the halves
stay as they are.  The retries by which a request is completed come to an end, and a
second completion of the result changes nothing. -/
theorem complete_sound (airlines : AirlineTable) (known : List KnownCallsign)
    (airline : AirlinePart) (number word : Option String) :
    (∀ part half, complete airlines (.ofList known) airline number word = (part, half, true) →
      ∃ callsign ∈ known, part = .code callsign.airline ∧ half = some callsign.flightNumber ∧
        ∃ step, Request.CompletedBy airlines (.ofList known) { airline, number, word } step
            (callsign.airline, callsign.flightNumber) ∧
          ((∀ code, step.airline ≠ .code code) →
            known.countP (·.flightNumber == callsign.flightNumber) = 1) ∧
          (step.number = none → known.countP (·.airline == callsign.airline) = 1)) ∧
    (∀ part half, complete airlines (.ofList known) airline number word = (part, half, false) →
      part = airline ∧ half = number) ∧
    (WellFounded (fun retry request : Request => retry ∈ request.retries airlines) ∧
      ∀ request : Request, request.complete? airlines (.ofList known) =
        if known.isEmpty then none
        else
          (request.match? (.ofList known)).or
            ((request.retries airlines).findSome? (Request.complete? airlines (.ofList known)))) ∧
    (∀ part half completed,
      complete airlines (.ofList known) airline number word = (part, half, completed) →
      complete airlines (.ofList known) part half word = (part, half, completed)) := by
  have hknown : ∀ part half,
      complete airlines (.ofList known) airline number word = (part, half, true) →
      ∃ callsign ∈ known, part = .code callsign.airline ∧ half = some callsign.flightNumber ∧
        ∃ step, Request.CompletedBy airlines (.ofList known) { airline, number, word } step
            (callsign.airline, callsign.flightNumber) ∧
          step.PointsTo known (callsign.airline, callsign.flightNumber) := by
    intro part half hcomplete
    obtain ⟨found, rfl, rfl, hfound⟩ := complete_eq_true hcomplete
    obtain ⟨step, hcompleted⟩ := Request.complete?_eq_some_iff.mp hfound
    obtain ⟨_, _, _, hmatch, _⟩ := id hcompleted
    have hpoints := Request.match?_eq_some hmatch
    exact ⟨_, hpoints.mem, rfl, rfl, step, hcompleted, hpoints⟩
  refine ⟨?_, fun _ _ => complete_eq_false, ⟨Request.wellFounded_retries airlines, ?_⟩, ?_⟩
  · intro part half hcomplete
    obtain ⟨callsign, hmem, hpart, hhalf, step, hcompleted, hpoints⟩ := hknown part half hcomplete
    exact ⟨callsign, hmem, hpart, hhalf, step, hcompleted, hpoints.unique_number,
      hpoints.unique_airline⟩
  · intro request
    rw [Request.complete?_eq, CallsignContext.isEmpty_ofList]
  · intro part half completed hcomplete
    cases completed with
    | true =>
        obtain ⟨callsign, hmem, rfl, rfl, -⟩ := hknown part half hcomplete
        exact complete_of_mem hmem
    | false =>
        obtain ⟨rfl, rfl⟩ := complete_eq_false hcomplete
        exact hcomplete

end Phraseology.Completion
