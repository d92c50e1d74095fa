import Phraseology.Proofs.Search.Paths
import Phraseology.Proofs.Search.PlainOutput

/-!
# Whether a callsign is open

A state has a flag that says whether a callsign is open.  It goes by the texts of arcs, while
the open tags go by the names in them and a closing arc may close more tags than one.  Where
tags are plain, closing arcs name the innermost open tag and no callsign is opened in
another, the two agree (`Task.Reached.marksCallsign`).  What may be skipped while a callsign
is open then goes by the flag (`Task.Takes.skipped`).
-/

namespace Phraseology

/-- In the runs of a search no callsign is opened where one is open. -/
def Task.OpensCallsignsApart (task : Task) : Prop :=
  ∀ state target arc name, task.Reached state →
    (target, arc) ∈ task.grammar.transitions state.node →
    arc.label = .opening Tag.callsignOpen name → Tag.callsignOpen ∉ task.pruned →
    "callsign" ∉ state.openTags

/-- The flag of a state says whether a callsign is open, and no more than one is. -/
structure State.MarksCallsign (state : State) : Prop where
  inCallsign_iff : state.inCallsign = true ↔ "callsign" ∈ state.openTags
  single : state.openTags.count "callsign" ≤ 1

namespace State.MarksCallsign

variable {state : State} {target : Nat} {text name top : String} {below : List String}

theorem initial (sentence : List Heard) : (State.initial sentence).MarksCallsign :=
  ⟨by simp [State.initial], by simp [State.initial]⟩

/-- The flag is set along with the callsign. -/
theorem openTag (hmarks : state.MarksCallsign) (htext : text = Tag.opener name)
    (hapart : text = Tag.callsignOpen → "callsign" ∉ state.openTags) (target : Nat) :
    (state.openTag target text name).MarksCallsign := by
  have hname : text = Tag.callsignOpen ↔ name = "callsign" := by
    rw [htext]
    exact Tag.opener_injective.eq_iff (b := "callsign")
  by_cases hcallsign : text = Tag.callsignOpen
  · have hnone := hapart hcallsign
    obtain rfl := hname.mp hcallsign
    refine ⟨?_, ?_⟩
    · simp [State.openTag, hcallsign]
    · simp [State.openTag, List.count_eq_zero.mpr hnone]
  · have hother : name ≠ "callsign" := fun h => hcallsign (hname.mpr h)
    refine ⟨?_, ?_⟩
    · simp [State.openTag, hcallsign, hother.symm, hmarks.inCallsign_iff]
    · simpa [State.openTag, List.count_cons, hother] using hmarks.single

/-- The flag is cleared along with the callsign. -/
theorem closeTag (hmarks : state.MarksCallsign) (hopen : state.openTags = top :: below)
    (htop : Tag.baseName top = Tag.baseName name) (hname : Tag.OpenName top)
    (hclosed : Tag.closingTag top = text) (target : Nat) :
    (state.closeTag target text name).MarksCallsign := by
  have hcallsign := hname.closingTag_eq_callsignClose_iff
  rw [hclosed] at hcallsign
  obtain ⟨hflag, hsingle⟩ := hmarks
  rw [hopen] at hflag hsingle
  have hleft : (state.closeTag target text name).openTags = below := by
    simp [State.closeTag, hopen, State.closedBy_innermost htop]
  have hafter : (state.closeTag target text name).inCallsign =
      (text != Tag.callsignClose && state.inCallsign) := rfl
  refine ⟨?_, ?_⟩
  · rw [hleft, hafter]
    by_cases hclose : text = Tag.callsignClose
    · -- the only callsign is closed
      obtain rfl := hcallsign.mp hclose
      have hnone : "callsign" ∉ below := by
        rw [List.count_cons_self] at hsingle
        exact List.count_eq_zero.mp (by omega)
      simp [hclose, hnone]
    · have hother : top ≠ "callsign" := fun h => hclose (hcallsign.mpr h)
      simp [hclose, hflag, hother.symm]
  · rw [hleft]
    exact Nat.le_trans (List.count_le_count_cons ..) hsingle

end State.MarksCallsign

variable {task : Task} {state next : State}

/-- In a reached state the flag says whether a callsign is open. -/
theorem Task.Reached.marksCallsign (hreached : task.Reached state)
    (hplain : task.grammar.PlainTags) (hinnermost : task.ClosesInnermost)
    (hapart : task.OpensCallsignsApart) : state.MarksCallsign := by
  induction hreached with
  | initial => exact .initial _
  | @move state _ hstate hmove ih =>
      cases hmove with
      | pass _ _ => exact ⟨ih.inCallsign_iff, ih.single⟩
      | @openTag target arc text name hleaves hopens hkept =>
          obtain ⟨hname, hopening⟩ := Arc.tag_of_opening hopens
          have htag : Tag.Plain text := by
            have harc := hplain _ target arc hleaves
            rw [Arc.output_of_opening hopens] at harc
            exact harc (Option.isSome_of_eq_some hname)
          refine ih.openTag (htag.openName_of_opening hname hopening).2 ?_ target
          rintro rfl
          exact hapart state target arc name hstate hleaves hopens hkept
      | @closeTag target arc text name hleaves hcloses =>
          obtain ⟨top, below, hopen, htop, hclosed⟩ :=
            hinnermost.exists_top hplain hstate hleaves hcloses
          have hname := (hstate.plain_output hplain).2 top (by simp [hopen])
          exact ih.closeTag hopen htop hname hclosed target
      | readWord _ _ _ => exact ⟨ih.inCallsign_iff, ih.single⟩
      | skipWord _ _ _ => exact ⟨ih.inCallsign_iff, ih.single⟩

/-! ## What is skipped -/

namespace SkipPolicy

variable {policy : SkipPolicy} {observation : String} {inCallsign : Bool} {cost : Nat}

/-- A marked word stands between two underscores. -/
theorem isMarked_iff :
    isMarked observation = true ↔ ∃ inside, observation = "_" ++ inside ++ "_" := by
  constructor
  · intro hmarked
    simp only [isMarked, Bool.and_eq_true, decide_eq_true_eq, beq_iff_eq] at hmarked
    obtain ⟨⟨hlength, hfirst⟩, hlast⟩ := hmarked
    obtain ⟨rest, hcons⟩ := List.head?_eq_some_iff.mp hfirst
    -- there are two characters, so that the last is not the first
    have hrest : rest ≠ [] := by
      rintro rfl
      rw [hcons] at hlength
      exact absurd hlength (by decide)
    rw [hcons, List.getLast?_cons_of_ne_nil hrest] at hlast
    obtain ⟨inside, hsnoc⟩ := List.getLast?_eq_some_iff.mp hlast
    refine ⟨String.ofList inside, String.toList_inj.mp ?_⟩
    rw [hcons, hsnoc]
    simp
  · rintro ⟨inside, rfl⟩
    simp [isMarked, List.getLast?_cons]

/-- A word that may be skipped is no airline, and inside a callsign it is noise, marked or
listed. -/
theorem of_skipCost? (hcost : policy.skipCost? observation inCallsign = some cost) :
    policy.airlines.contains observation = false ∧
      (inCallsign = true → policy.noiseMarkers.contains observation = true ∨
        isMarked observation = true ∨ policy.callsignWhitelist.contains observation = true) := by
  unfold skipCost? at hcost
  dsimp only at hcost
  split at hcost
  · cases hcost
  · next hallowed =>
      simp only [Bool.or_eq_true, not_or, Bool.not_eq_true] at hallowed
      split at hcost
      · cases hcost
      · next hkept =>
          refine ⟨hallowed.2, fun hcallsign => ?_⟩
          simpa only [hcallsign, Bool.true_and, Bool.and_eq_true, Bool.not_eq_true', not_and,
            Bool.not_eq_false, and_imp, or_iff_not_imp_left, Bool.not_eq_true] using hkept

end SkipPolicy

/-- What a stride past a word says of this word. -/
theorem Task.Takes.skipped (htakes : task.Takes state .skip next) :
    ∃ heard, state.unread = heard :: next.unread ∧
      task.policy.airlines.contains heard.observation = false ∧
      (state.inCallsign = true → task.policy.noiseMarkers.contains heard.observation = true ∨
        SkipPolicy.isMarked heard.observation = true ∨
        task.policy.callsignWhitelist.contains heard.observation = true) := by
  cases htakes with
  | skip hskips =>
      obtain ⟨heard, rest, cost, -, hunread, hcost, rfl⟩ := State.skip?_eq_some_iff.mp hskips
      obtain ⟨hairline, hinside⟩ := SkipPolicy.of_skipCost? hcost
      exact ⟨heard, hunread, hairline, hinside⟩

end Phraseology
