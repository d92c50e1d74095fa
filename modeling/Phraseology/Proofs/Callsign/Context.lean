import Phraseology.Callsign.Context

/-!
# What a session knows of its callsigns

A session is built up by pushing callsigns one by one, so it is `CallsignContext.ofList`
of those that were pushed.  Both sets of ambiguous halves are kept in the same way: a
half is added when a callsign arrives that shares it with an earlier one.  So a set
`Repeats` a half exactly if at least two of the callsigns have it, which one push keeps
(`Repeats.push`) and a whole session has (`isAmbiguousAirline_iff`,
`isAmbiguousFlightNumber_iff`).
-/

namespace Phraseology.CallsignContext

variable {half : KnownCallsign → String} {known : List KnownCallsign} {callsign : KnownCallsign}

/-! ## One half -/

/-- A set of halves holds those that at least two of some callsigns have. -/
def Repeats (set : Std.TreeSet String) (half : KnownCallsign → String)
    (known : List KnownCallsign) : Prop :=
  ∀ value, set.contains value = true ↔ 2 ≤ known.countP (half · == value)

theorem repeats_nil : Repeats ∅ half [] := by
  intro value
  simp

/-- A half that an earlier callsign has is there twice when the next one has it too. -/
theorem Repeats.push {set : Std.TreeSet String} (hrepeats : Repeats set half known)
    (callsign : KnownCallsign) :
    Repeats (if known.any (half · == half callsign) then set.insert (half callsign) else set) half
      (known ++ [callsign]) := by
  intro value
  have hcount : (known ++ [callsign]).countP (half · == value) =
      known.countP (half · == value) + if half callsign == value then 1 else 0 := by
    rw [List.countP_append, List.countP_singleton]
  rw [hcount]
  by_cases hvalue : half callsign = value
  · subst hvalue
    by_cases hany : known.any (half · == half callsign) = true
    · have hpos : 0 < known.countP (half · == half callsign) := by
        rw [List.countP_pos_iff]
        simpa using hany
      rw [if_pos hany]
      refine iff_of_true (by simp) ?_
      simp only [beq_self_eq_true, if_true]
      omega
    · -- the first callsign with this half
      have hzero : known.countP (half · == half callsign) = 0 := by
        rw [List.countP_eq_zero]
        simpa using hany
      rw [if_neg hany, hrepeats, hzero]
      simp
  · have hset : (if known.any (half · == half callsign) then set.insert (half callsign)
        else set).contains value = set.contains value := by
      split
      · rw [Std.TreeSet.contains_insert]
        simp [hvalue]
      · rfl
    rw [hset, hrepeats]
    simp [hvalue]

/-! ## A whole session -/

theorem push_ofList (known : List KnownCallsign) (callsign : KnownCallsign) :
    (ofList known).push callsign = ofList (known ++ [callsign]) := by
  simp [ofList]

/-- The callsigns of a session, and the halves that at least two of them have. -/
structure Tracks (context : CallsignContext) (known : List KnownCallsign) : Prop where
  callsigns : context.toList = known
  airlines : Repeats context.ambiguousAirlines (·.airline) known
  flightNumbers : Repeats context.ambiguousFlightNumbers (·.flightNumber) known

theorem tracks_empty : Tracks empty [] :=
  ⟨rfl, repeats_nil, repeats_nil⟩

theorem Tracks.push {context : CallsignContext} (htracks : context.Tracks known)
    (callsign : KnownCallsign) : (context.push callsign).Tracks (known ++ [callsign]) := by
  obtain ⟨hcallsigns, hairlines, hnumbers⟩ := htracks
  have hany : ∀ p : KnownCallsign → Bool, context.callsigns.any p = known.any p := by
    intro p
    rw [← hcallsigns, toList, Array.any_toList]
  refine ⟨?_, ?_, ?_⟩
  · rw [← hcallsigns]
    simp [CallsignContext.push, toList]
  · simp only [CallsignContext.push, hany]
    exact hairlines.push callsign
  · simp only [CallsignContext.push, hany]
    exact hnumbers.push callsign

theorem Tracks.foldl_push {context : CallsignContext} (htracks : context.Tracks known)
    (more : List KnownCallsign) :
    (more.foldl CallsignContext.push context).Tracks (known ++ more) := by
  induction more generalizing context known with
  | nil => simpa using htracks
  | cons callsign more ih => simpa using ih (htracks.push callsign)

theorem tracks_ofList (known : List KnownCallsign) : (ofList known).Tracks known :=
  tracks_empty.foldl_push known

@[simp] theorem toList_ofList (known : List KnownCallsign) : (ofList known).toList = known :=
  (tracks_ofList known).callsigns

@[simp] theorem isEmpty_ofList (known : List KnownCallsign) :
    (ofList known).isEmpty = known.isEmpty := by
  have hlist : (ofList known).callsigns.toList = known := toList_ofList known
  rw [isEmpty, ← Array.isEmpty_toList, hlist]

/-- An airline is ambiguous exactly if at least two callsigns have it. -/
theorem isAmbiguousAirline_iff {airline : String} :
    (ofList known).isAmbiguousAirline airline = true ↔
      2 ≤ known.countP (·.airline == airline) :=
  (tracks_ofList known).airlines airline

/-- A flight number is ambiguous exactly if at least two callsigns have it. -/
theorem isAmbiguousFlightNumber_iff {flightNumber : String} :
    (ofList known).isAmbiguousFlightNumber flightNumber = true ↔
      2 ≤ known.countP (·.flightNumber == flightNumber) :=
  (tracks_ofList known).flightNumbers flightNumber

end Phraseology.CallsignContext
