import Phraseology.Proofs.Callsign.Completion

/-!
# Hearing known callsigns again

A callsign that is pushed a second time makes both its halves ambiguous, so a half alone
no longer completes to it.  Nothing else changes: a lookup by one half gives what it gave,
or it gave a callsign that was heard again (`single?_append`), and a request with both
halves does not look at what is ambiguous.  The first request that no longer has its match
is then the one that completed the callsign (`findSome?_eq_or_first`).
-/

namespace Phraseology.Completion

theorem findSome?_eq_or_first {α β : Type} {f g : α → Option β} {p : α → β → Prop}
    {items : List α}
    (hitems : ∀ item ∈ items, g item = f item ∨ ∃ value, f item = some value ∧ p item value) :
    items.findSome? g = items.findSome? f ∨
      ∃ before item after value, items = before ++ item :: after ∧
        (∀ earlier ∈ before, f earlier = none) ∧ f item = some value ∧ p item value := by
  induction items with
  | nil => exact .inl rfl
  | cons item items ih =>
      rcases hitems item List.mem_cons_self with hsame | ⟨value, hvalue, hp⟩
      · rw [List.findSome?_cons, List.findSome?_cons, hsame]
        cases hitem : f item with
        | some value => exact .inl rfl
        | none =>
            rcases ih fun other hother => hitems other (List.mem_cons_of_mem item hother) with
              hrest | ⟨before, other, after, value, rfl, hbefore, hvalue, hp⟩
            · exact .inl hrest
            · exact .inr ⟨item :: before, other, after, value, rfl, by simpa [hitem] using hbefore,
                hvalue, hp⟩
      · exact .inr ⟨[], item, items, value, rfl, by simp, hvalue, hp⟩

/-- A test that fewer than two members of a list pass singles one out. -/
theorem eq_of_countP_lt_two {α : Type} {p : α → Bool} {items : List α} {first second : α}
    (hcount : items.countP p < 2) (hfirst : first ∈ items) (hsecond : second ∈ items)
    (hpfirst : p first = true) (hpsecond : p second = true) : first = second := by
  rw [List.countP_eq_length_filter] at hcount
  have hmem : first ∈ items.filter p := List.mem_filter.mpr ⟨hfirst, hpfirst⟩
  have hmem' : second ∈ items.filter p := List.mem_filter.mpr ⟨hsecond, hpsecond⟩
  match hfilter : items.filter p with
  | [] => simp [hfilter] at hmem
  | [only] =>
      rw [hfilter, List.mem_singleton] at hmem hmem'
      rw [hmem, hmem']
  | _ :: _ :: _ =>
      rw [hfilter, List.length_cons, List.length_cons] at hcount
      omega

/-! ## A half alone -/

variable {airlines : AirlineTable} {known heard : List KnownCallsign}

/-- A half alone gives what it gave before, unless it gave a callsign heard again. -/
theorem single?_append (half : KnownCallsign → String) (hheard : heard ⊆ known)
    (value : String) :
    single? half (known ++ heard) value = single? half known value ∨
      ∃ callsign, single? half known value = some callsign ∧ callsign ∈ heard := by
  have hcount : (known ++ heard).countP (half · == value) =
      known.countP (half · == value) + heard.countP (half · == value) := List.countP_append
  by_cases hambiguous : 2 ≤ known.countP (half · == value)
  · -- it was ambiguous before
    left
    rw [single?, single?, if_pos hambiguous, if_pos (by omega)]
  · cases hfind : heard.find? (half · == value) with
    | none =>
        have hzero : heard.countP (half · == value) = 0 :=
          List.countP_eq_zero.mpr (List.find?_eq_none.mp hfind)
        left
        rw [single?, single?, if_neg hambiguous, if_neg (by omega), List.find?_append, hfind,
          Option.or_none]
    | some callsign =>
        have hmem : callsign ∈ heard := List.mem_of_find?_eq_some hfind
        have hvalue : (half callsign == value) = true := by simpa using List.find?_some hfind
        right
        refine ⟨callsign, ?_, hmem⟩
        rw [single?, if_neg hambiguous]
        cases hknown : known.find? (half · == value) with
        | none =>
            have hnone := List.find?_eq_none.mp hknown callsign (hheard hmem)
            exact absurd hvalue hnone
        | some other =>
            have hother : (half other == value) = true := by simpa using List.find?_some hknown
            rw [eq_of_countP_lt_two (Nat.lt_of_not_le hambiguous)
              (List.mem_of_find?_eq_some hknown) (hheard hmem) hother hvalue]

/-! ## A request -/

namespace Request

/-- A request with one half of a callsign at most. -/
def GoesByHalf (request : Request) : Prop :=
  request.number = none ∨ ∀ code, request.airline ≠ .code code

/-- A request has the match that it had before, unless it goes by a half and its match
was heard again. -/
theorem match?_append (hheard : heard ⊆ known) (request : Request) :
    request.match? (.ofList (known ++ heard)) = request.match? (.ofList known) ∨
      ∃ found, request.match? (.ofList known) = some found ∧
        { airline := found.1, flightNumber := found.2 } ∈ heard ∧ request.GoesByHalf := by
  obtain ⟨airline, number, word⟩ := request
  cases airline with
  | code code =>
      cases number with
      | some number =>
          left
          have hany : ∀ p : KnownCallsign → Bool, (known ++ heard).any p = known.any p := by
            intro p
            rw [List.any_append, Bool.or_eq_left_iff_imp, List.any_eq_true, List.any_eq_true]
            rintro ⟨callsign, hmem, hp⟩
            exact ⟨callsign, hheard hmem, hp⟩
          simp [match?, lookUp?, numberOf?, hany]
      | none =>
          simp only [match?, lookUp?, uniqueWithAirline?_ofList]
          rcases single?_append (·.airline) hheard code with
            hsame | ⟨callsign, hsingle, hmem⟩
          · left
            rw [hsame]
          · right
            have hairline : callsign.airline = code := (single?_eq_some hsingle).2.1
            exact ⟨(code, callsign.flightNumber), by rw [hsingle]; rfl, hairline ▸ hmem, .inl rfl⟩
  | unknown | absent =>
      cases number with
      | some number =>
          simp only [match?, lookUp?, uniqueWithNumber?_ofList]
          rcases findSome?_eq_or_first fun candidate (_ : candidate ∈ withLeadingZero number) =>
              single?_append (·.flightNumber) hheard candidate with
            hsame | ⟨before, candidate, after, callsign, hsplit, hbefore, hsingle, hmem⟩
          · left
            rw [hsame]
          · right
            have hfound : (withLeadingZero number).findSome? (single? (·.flightNumber) known) =
                some callsign :=
              List.findSome?_eq_some_iff.mpr ⟨before, candidate, after, hsplit, hsingle, hbefore⟩
            exact ⟨(callsign.airline, callsign.flightNumber), by rw [hfound]; rfl, hmem,
              .inr (by simp)⟩
      | none => exact .inl rfl

theorem complete?_append (hheard : heard ⊆ known) (request : Request) :
    request.complete? airlines (.ofList (known ++ heard)) =
        request.complete? airlines (.ofList known) ∨
      ∃ found step, request.CompletedBy airlines (.ofList known) step found ∧
        { airline := found.1, flightNumber := found.2 } ∈ heard ∧ step.GoesByHalf := by
  rw [complete?_eq_findSome?_tried, complete?_eq_findSome?_tried]
  rcases findSome?_eq_or_first fun step (_ : step ∈ request.tried airlines) =>
      match?_append hheard step with
    hsame | ⟨before, step, after, found, htried, hbefore, hmatch, hmem, hhalf⟩
  · exact .inl hsame
  · exact .inr ⟨found, step, ⟨before, after, htried, hmatch, hbefore⟩, hmem, hhalf⟩

end Request

/-! ## Completions -/

theorem complete_congr {context later : CallsignContext} {request : Request}
    (hsame : request.complete? airlines later = request.complete? airlines context) :
    complete airlines later request.airline request.number request.word =
      complete airlines context request.airline request.number request.word := by
  unfold Request.complete? at hsame
  simp only [complete, hsame]

/-- Hearing a callsign again leaves a completion as it was, unless it was a completion to
this very callsign in a step that went by one of its halves. -/
theorem complete_push_of_mem {callsign : KnownCallsign} (hcallsign : callsign ∈ known)
    (airlines : AirlineTable) (request : Request) :
    complete airlines ((CallsignContext.ofList known).push callsign) request.airline
          request.number request.word =
        complete airlines (.ofList known) request.airline request.number request.word ∨
      ∃ step, request.CompletedBy airlines (.ofList known) step
          (callsign.airline, callsign.flightNumber) ∧ step.GoesByHalf := by
  have hheard : [callsign] ⊆ known := by simpa using hcallsign
  rw [CallsignContext.push_ofList]
  rcases Request.complete?_append hheard request with
    hsame | ⟨found, step, hcompleted, hmem, hhalf⟩
  · exact .inl (complete_congr hsame)
  · have hfound : KnownCallsign.mk found.1 found.2 = callsign := List.mem_singleton.mp hmem
    subst hfound
    exact .inr ⟨step, hcompleted, hhalf⟩

/-- The flight number of one callsign after another was heard again. -/
theorem complete_push_of_other :
    complete .empty ((CallsignContext.ofList [⟨"DLH", "456"⟩, ⟨"BAW", "01"⟩]).push ⟨"DLH", "456"⟩)
        .unknown (some "1") none = (.code "BAW", some "01", true) := by
  have hcallsign : KnownCallsign.mk "DLH" "456" ∈ [⟨"DLH", "456"⟩, ⟨"BAW", "01"⟩] := by decide
  rcases complete_push_of_mem hcallsign .empty
      { airline := .unknown, number := some "1", word := none } with hsame | ⟨step, hcompleted, -⟩
  · rw [hsame]
    decide +kernel
  · have hfound := Request.complete?_eq_some_iff.mpr ⟨step, hcompleted⟩
    revert hfound
    decide +kernel

/-- A known callsign can be lost by hearing it again: its airline alone was enough to
complete it before, and is ambiguous afterwards. -/
theorem not_forall_complete_push :
    ¬ ∀ (known : List KnownCallsign) (callsign : KnownCallsign), callsign ∈ known →
      ∀ (airlines : AirlineTable) (airline : AirlinePart) (number word : Option String),
        complete airlines ((CallsignContext.ofList known).push callsign) airline number word =
          complete airlines (.ofList known) airline number word := by
  intro hsame
  have hdlh := hsame [⟨"DLH", "456"⟩] ⟨"DLH", "456"⟩ (by decide) .empty (.code "DLH") none none
  have hbefore : complete .empty (.ofList [⟨"DLH", "456"⟩]) (.code "DLH") none none =
      (.code "DLH", some "456", true) := by decide +kernel
  have hafter : complete .empty ((CallsignContext.ofList [⟨"DLH", "456"⟩]).push ⟨"DLH", "456"⟩)
      (.code "DLH") none none = (.code "DLH", none, false) := by decide +kernel
  rw [hbefore, hafter] at hdlh
  exact absurd hdlh (by decide)

end Phraseology.Completion
