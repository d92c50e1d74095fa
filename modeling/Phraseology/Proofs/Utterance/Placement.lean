import Mathlib.Data.List.TakeWhile
import Phraseology.Proofs.Command.Interpretation
import Phraseology.Proofs.Frame.Places
import Phraseology.Proofs.Utterance.Extraction

/-!
# Where callsigns and commands are scored

The frames that a callsign and a command are scored over come from different cuts of one
sentence.  Each callsign and each command is followed here through all ratings of the sentence
at once, with the places of the tokens it is scored over.

* `Callsign.exists_placed`: a callsign takes its tokens from its own span;
* `Frame.content_noiseBeforeCommands`: the noise that stands in for one is from the stretch in
  front of it and of the commands (`exists_placedCallsign`);
* `Command.exists_placed`: a command takes the words of its concept from what the span of its
  value leaves of its own span;
* `exists_placedCommands`: so the loop over the commands takes no token twice, and none from in
  front of the first command.
-/

namespace Phraseology

variable {word : Nat → String} {places : List Nat} {frame : Rating → Frame}

/-! ## Callsigns -/

namespace Callsign

variable {airlines : AirlineTable} {context : CallsignContext}

theorem isSome_spoken? (frame : Option Frame) :
    (spoken? frame).isSome = frame.any (!·.isEmptyTag) := by
  cases frame <;> simp [spoken?, Option.isSome_filter]

/-- What was heard of a callsign is there after completion. -/
theorem isPresent_complete {airline : AirlinePart} {number : Option String}
    (hpresent : (airline != .absent || number.isSome) = true) (airlineWord : Option String) :
    ((Completion.complete airlines context airline number airlineWord).1 != .absent ||
      (Completion.complete airlines context airline number airlineWord).2.1.isSome) = true := by
  unfold Completion.complete
  split
  · simp
  · exact hpresent

/-- There is a callsign as soon as one half of it was spoken. -/
theorem isCallsign_ofHalves (airlines : AirlineTable) (context : CallsignContext)
    (airlineFrame : Option Frame) (number : Option String) :
    ((ofHalves airlines context airlineFrame number).1 != .absent ||
      (ofHalves airlines context airlineFrame number).2.isSome) =
      (airlineFrame.any (!·.isEmptyTag) || number.isSome) := by
  rw [← isSome_spoken?]
  unfold ofHalves
  cases spoken? airlineFrame with
  | none =>
      cases number with
      | none => rfl
      | some number => exact isPresent_complete rfl none
  | some airline =>
      refine isPresent_complete ?_ (some (Text.unwords airline.contentWords))
      dsimp only [Option.map_some]
      split <;> rfl

/-- The number of a span is read off its words. -/
theorem spokenNumber_drawn {span : Rating → Option Frame} (hspan : Frame.SpanAt word places span)
    (rating other : Rating) : spokenNumber (span rating) = spokenNumber (span other) := by
  rcases hspan with ⟨-, hnone⟩ | ⟨inside, hinside, hsome⟩
  · rw [hnone, hnone]
  · unfold spokenNumber spoken?
    rw [hsome, hsome, Option.filter_some, Option.filter_some, hinside.isEmptyTag rating other]
    cases (inside other).isEmptyTag with
    | true => rfl
    | false =>
        show (whenEnded (Spoken.number? (inside rating).contentWords)).map some =
          (whenEnded (Spoken.number? (inside other).contentWords)).map some
        rw [hinside.contentWords, hinside.contentWords]

/-- The callsign of a span is scored over some of its places. -/
theorem exists_placed (hdrawn : Frame.DrawnAt word places frame) (airlines : AirlineTable)
    (context : CallsignContext) :
    (∀ rating, ∃ failure, ofFrame (frame rating) airlines context = .error failure) ∨
      ∃ (callsign : Rating → Callsign) (chosen : List Nat), chosen.Subperm places ∧
        (∀ rating, ofFrame (frame rating) airlines context = .ok (callsign rating)) ∧
        (∀ rating, ((callsign rating).airlineFrame.toList ++
          (callsign rating).flightNumberFrame.toList).flatMap Frame.content =
            draw word chosen rating) ∧
        ∀ rating other, (callsign rating).isCallsign = (callsign other).isCallsign := by
  obtain ⟨first, rest, airline, left, hplaces, hcutAirline, hairline, hleft⟩ :=
    hdrawn.cutTag "airline"
  obtain ⟨second, others, number, remaining, hrest, hcutNumber, hnumber, -⟩ :=
    hleft.cutTag "flightnumber"
  have hread : ∀ rating, ofFrame (frame rating) airlines context =
      if ((frame rating).strict && !((frame rating).firstWord? == some Tag.callsignOpen &&
          (frame rating).lastWord? == some Tag.callsignClose)) = true
      then .error (.invalidSpan .callsign (frame rating).text)
      else (spokenNumber (number fun _ => 0)).map
        (ofSpans airlines context (airline rating) (number rating)) := by
    intro rating
    simp only [ofFrame, hcutAirline, hcutNumber, spokenNumber_drawn hnumber rating fun _ => 0]
  have hstrict := hdrawn.strict
  -- whether the ends of the span are refused can be read off the words
  simp only [Frame.firstWord?, Frame.lastWord?, hdrawn.words, hstrict _ fun _ => 0] at hread
  split at hread
  · exact .inl fun rating => ⟨_, hread rating⟩
  cases hspoken : spokenNumber (number fun _ => 0) with
  | error failure => exact .inl fun rating => ⟨failure, by rw [hread, hspoken]; rfl⟩
  | ok spoken =>
      rw [hspoken] at hread
      refine .inr ⟨_, inside first ++ inside second, ?_, hread, fun rating => ?_,
        fun rating other => ?_⟩
      · have hsome : (inside first ++ inside second).Sublist (first ++ (second ++ others)) :=
          (inside_sublist first).append
            ((inside_sublist second).trans (List.sublist_append_left _ _))
        exact hsome.subperm.trans (hplaces.trans (hrest.append_left first)).symm.subperm
      · show ((airline rating).toList ++ (number rating).toList).flatMap Frame.content = _
        rw [List.flatMap_append, hairline.content, hnumber.content, draw_append]
      · simp only [isCallsign, ofSpans, isCallsign_ofHalves, hairline.any_isEmptyTag rating other]

end Callsign

/-! ## The noise in front of the commands -/

namespace Frame

/-- Whether a word ends the stretch in front of the callsign and the commands. -/
def endsStretch (word : String) : Bool :=
  word == Tag.callsignOpen || Tag.isCommandOpen word

/-- The places of that stretch behind the start of the sentence. -/
def stretch (word : Nat → String) (places : List Nat) : List Nat :=
  places.takeWhile fun place => !endsStretch (word place)

/-- In a sentence that starts as one, the noise is from the stretch in front of the callsign
and the commands. -/
theorem content_noiseBeforeCommands {start : Nat}
    (hdrawn : DrawnAt word (start :: places) frame) (hstart : word start = Tag.sentenceOpen)
    (rating : Rating) :
    (frame rating).noiseBeforeCommands.content =
      draw word ((stretch word places).filter (noiseWords.contains <| word ·)) rating := by
  have htokens : (frame rating).tokens =
      tokenAt word rating start :: draw word places rating := hdrawn.tokens rating
  have hbehind : afterStart (· == Tag.sentenceOpen) (frame rating).tokens =
      draw word places rating := by
    rw [htokens, tokenAt, hstart]
    rfl
  have hnoise : (frame rating).noiseBeforeCommands = part
      (Token.plain "<noise>" ::
        ((afterStart (· == Tag.sentenceOpen) (frame rating).tokens).takeWhile
          fun token => !endsStretch token.word).filter
            (fun token => noiseWords.contains token.word) ++
        [Token.plain "</noise>"]) (frame rating).strict := rfl
  rw [hnoise, hbehind, takeWhile_draw (!endsStretch ·), filter_draw (noiseWords.contains ·)]
  simp [content, part, stretch]

end Frame

namespace Utterance

theorem frames_withNoise {callsign : Callsign} (hsilent : callsign.isCallsign = false)
    (sentence : Frame) :
    (callsign.withNoise sentence).frames = [sentence.noiseBeforeCommands] := by
  have hstill : (callsign.withNoise sentence).isCallsign = false := hsilent
  rw [Callsign.frames, hstill]
  rfl

/-- The callsign of a sentence, or the noise that stands in for it, is scored over some of the
places in front of the commands and of its span. -/
theorem exists_placedCallsign {start : Nat} {inner : List Nat} {span : Rating → Option Frame}
    (hdrawn : Frame.DrawnAt word (start :: places) frame) (hstart : word start = Tag.sentenceOpen)
    (hspan : Frame.SpanAt word inner span) (airlines : AirlineTable)
    (context : CallsignContext) :
    (∀ rating, ∃ failure,
      callsignOf (frame rating) (span rating) airlines context = .error failure) ∨
      ∃ (callsign : Rating → Callsign) (chosen : List Nat),
        chosen.Subperm (start :: Frame.stretch word places ++ inner) ∧
        (∀ rating,
          callsignOf (frame rating) (span rating) airlines context = .ok (callsign rating)) ∧
        ∀ rating, (callsign rating).frames.flatMap Frame.content = draw word chosen rating := by
  let noise := (Frame.stretch word places).filter (Frame.noiseWords.contains <| word ·)
  have hnoise : noise.Subperm (start :: Frame.stretch word places ++ inner) :=
    ((List.filter_sublist.cons start).trans (List.sublist_append_left _ inner)).subperm
  have hsilent : ∀ rating {callsign : Callsign}, callsign.isCallsign = false →
      (callsign.withNoise (frame rating)).frames.flatMap Frame.content =
        draw word noise rating := by
    intro rating callsign hsilent
    rw [frames_withNoise hsilent, List.flatMap_singleton,
      Frame.content_noiseBeforeCommands hdrawn hstart]
  rcases hspan with ⟨-, hnone⟩ | ⟨inside, hinside, hsome⟩
  · exact .inr ⟨fun rating => Callsign.absent.withNoise (frame rating), noise, hnoise,
      fun rating => by rw [hnone]; rfl, fun rating => hsilent rating rfl⟩
  · rcases Callsign.exists_placed hinside airlines context with
      hfailure | ⟨callsign, chosen, hchosen, hread, hframes, hsame⟩
    · refine .inl fun rating => ?_
      obtain ⟨failure, hfailure⟩ := hfailure rating
      exact ⟨failure, by rw [hsome, callsignOf, hfailure]; rfl⟩
    · have hcallsign : ∀ rating,
          callsignOf (frame rating) (span rating) airlines context =
            .ok (if (callsign rating).isCallsign then callsign rating
              else (callsign rating).withNoise (frame rating)) := by
        intro rating
        rw [hsome, callsignOf, hread]
        rfl
      -- the noise stands in under all ratings or under none
      cases hspoken : (callsign fun _ => 0).isCallsign with
      | true =>
          refine .inr ⟨callsign, chosen, hchosen.trans (List.sublist_append_right _ _).subperm,
            fun rating => ?_, fun rating => ?_⟩
          · rw [hcallsign, hsame rating, hspoken, if_pos rfl]
          · rw [Callsign.frames, hsame rating, hspoken, if_pos rfl, hframes]
      | false =>
          refine .inr ⟨fun rating => (callsign rating).withNoise (frame rating), noise, hnoise,
            fun rating => ?_, fun rating => hsilent rating ((hsame rating _).trans hspoken)⟩
          rw [hcallsign, hsame rating, hspoken]
          rfl

end Utterance

/-! ## Commands -/

/-- A command under each rating of its sentence, with the places of what it is scored over. -/
structure PlacedCommand (word : Nat → String) where
  command : Rating → Command
  /-- The places of its words outside further tags. -/
  concept : List Nat
  /-- The places of the span of its value. -/
  span : List Nat
  legal : ∀ rating other, (command rating).legal = (command other).legal
  hasConcept : ∀ rating other, (command rating).hasConcept = (command other).hasConcept
  content : ∀ rating,
    (command rating).conceptFrame.toList.flatMap Frame.content = draw word concept rating
  spanAt : Frame.SpanAt word span fun rating => (command rating).valueFrame

/-- All places of a command that matter to its scores. -/
def PlacedCommand.used (placed : PlacedCommand word) : List Nat :=
  placed.concept ++ placed.span

namespace Command

variable {rule : CommandRule}

/-- The value of a command is found in the same places under all ratings. -/
theorem findValue?_drawn (hdrawn : Frame.DrawnAt word places frame) (tags : List ValueTag) :
    (∀ rating, findValue? (frame rating) tags = none) ∨
      ∃ tag inner rest span left, places.Perm (inner ++ rest) ∧
        (∀ rating, findValue? (frame rating) tags = some (tag, span rating, left rating)) ∧
        Frame.DrawnAt word inner span ∧ Frame.DrawnAt word rest left := by
  induction tags with
  | nil => exact .inl fun rating => rfl
  | cons tag tags ih =>
      obtain ⟨inner, rest, span, left, hplaces, hcut, hspan, hleft⟩ := hdrawn.cutTag tag.tag
      rcases hspan with ⟨-, hnone⟩ | ⟨inside, hinside, hsome⟩
      · have hnext : ∀ rating, findValue? (frame rating) (tag :: tags) =
            findValue? (frame rating) tags := by
          intro rating
          rw [findValue?, hcut, hnone]
        simpa only [hnext] using ih
      · refine .inr ⟨tag, inner, rest, inside, left, hplaces, fun rating => ?_, hinside, hleft⟩
        rw [findValue?, hcut, hsome]

theorem isSome_direction? (frame : Frame) :
    (direction? frame).isSome = (frame.cutTag "direction").1.any (!·.isEmptyTag) := by
  rw [direction?, Option.isSome_map, ← Callsign.isSome_spoken?]
  rfl

/-- Only a turn to a heading can lack what modifies its concept. -/
theorem isSome_modifiedConcept? (modifier : Modifier) (plain : String) (frame : Frame) :
    (modifiedConcept? modifier plain frame).isSome =
      (modifier != .turnToHeading || (direction? frame).isSome) := by
  cases modifier <;> simp [modifiedConcept?]

/-- A command with a span for its value is scored over the places of this span and of what it
leaves. -/
theorem exists_placed_of_span (hrule : rule ∈ CommandRule.all) {inner rest : List Nat}
    {span left : Rating → Frame} (hplaces : places.Perm (inner ++ rest))
    (hspan : Frame.DrawnAt word inner span) (hleft : Frame.DrawnAt word rest left)
    {command : Rating → Command}
    (hread : ∀ rating, ofRule rule (frame rating) = .ok (command rating))
    (hconceptFrame : ∀ rating, (command rating).conceptFrame = some (left rating).shallow)
    (hvalueFrame : ∀ rating, (command rating).valueFrame = some (span rating))
    (hlegal : ∀ rating other, (command rating).legal = (command other).legal) :
    ∃ placed : PlacedCommand word, placed.used.Subperm places ∧
      ∀ rating, ofRule rule (frame rating) = .ok (placed.command rating) := by
  obtain ⟨outer, houter, hcontent⟩ := hleft.exists_shallow
  have hconcept : ∀ rating, (command rating).hasConcept = true := fun rating =>
    hasConcept_ofRule hrule (hread rating)
  refine ⟨{ command, concept := outer, span := inner, legal := hlegal,
            hasConcept := fun rating other => (hconcept rating).trans (hconcept other).symm,
            content := fun rating => ?_, spanAt := .inr ⟨span, hspan, hvalueFrame⟩ }, ?_, hread⟩
  · rw [hconceptFrame, ← hcontent]
    exact List.flatMap_singleton ..
  · have hparts : (outer ++ inner).Subperm (rest ++ inner) := houter.subperm.append (.refl inner)
    exact hparts.trans ((hplaces.trans List.perm_append_comm).symm.subperm)

/-- Whether the concept of a command can be modified is read off its words. -/
theorem isSome_modifiedConcept?_drawn (hdrawn : Frame.DrawnAt word places frame)
    (modifier : Modifier) (plain : String) (rating other : Rating) :
    (modifiedConcept? modifier plain (frame rating)).isSome =
      (modifiedConcept? modifier plain (frame other)).isSome := by
  obtain ⟨first, rest, direction, left, -, hcut, hdirection, -⟩ := hdrawn.cutTag "direction"
  simp only [isSome_modifiedConcept?, isSome_direction?, hcut,
    hdirection.any_isEmptyTag rating other]

/-- A command with words for its value is scored over places of its span. -/
theorem exists_placed_ofValue (hrule : rule ∈ CommandRule.all) {inner rest : List Nat}
    {tag : ValueTag} {span left : Rating → Frame} (hplaces : places.Perm (inner ++ rest))
    (hread : ∀ rating, ofRule rule (frame rating) = ofValue rule tag (span rating) (left rating))
    (hspan : Frame.DrawnAt word inner span) (hleft : Frame.DrawnAt word rest left) :
    (∀ rating, ∃ failure, ofRule rule (frame rating) = .error failure) ∨
      ∃ placed : PlacedCommand word, placed.used.Subperm places ∧
        ∀ rating, ofRule rule (frame rating) = .ok (placed.command rating) := by
  have hmodified := isSome_modifiedConcept?_drawn hleft rule.modifier (Text.upper rule.type)
  cases hdirection :
      (modifiedConcept? rule.modifier (Text.upper rule.type) (left fun _ => 0)).isSome with
  | false =>
      have hundirected : ∀ rating, ofRule rule (frame rating) =
          .ok (withoutDirection rule (span rating) (left rating)) := by
        intro rating
        have hnone := Option.isSome_eq_false_iff.mp ((hmodified rating _).trans hdirection)
        rw [hread, ofValue, Option.isNone_iff_eq_none.mp hnone]
      exact .inr (exists_placed_of_span hrule hplaces hspan hleft hundirected
        (fun _ => rfl) (fun _ => rfl) fun _ _ => rfl)
  | true =>
      have hconcepts : ∀ rating, ∃ concept, modifiedConcept? rule.modifier
          (Text.upper rule.type) (left rating) = some concept := fun rating =>
        Option.isSome_iff_exists.mp ((hmodified rating _).trans hdirection)
      choose concept hconcept using hconcepts
      -- the words of the value, and so its text, are the same under all ratings
      have hvalues : ∀ rating, ofRule rule (frame rating) =
          (whenEnded (valueText? tag.kind ((inside inner).map word))).map
            (withValue rule tag (span rating) (left rating) (concept rating)) := by
        intro rating
        rw [hread, ofValue, hconcept rating, hspan.contentWords]
      cases hvalue : valueText? tag.kind ((inside inner).map word) with
      | none => exact .inl fun rating => ⟨_, by rw [hvalues, hvalue]; rfl⟩
      | some value =>
          have hvalued : ∀ rating, ofRule rule (frame rating) =
              .ok (withValue rule tag (span rating) (left rating) (concept rating) value) :=
            fun rating => by rw [hvalues, hvalue]; rfl
          exact .inr (exists_placed_of_span hrule hplaces hspan hleft hvalued
            (fun _ => rfl) (fun _ => rfl) fun _ _ => rfl)

/-- A command of some rule is scored over places of its span. -/
theorem exists_placed_ofRule (hrule : rule ∈ CommandRule.all)
    (hdrawn : Frame.DrawnAt word places frame) :
    (∀ rating, ∃ failure, ofRule rule (frame rating) = .error failure) ∨
      ∃ placed : PlacedCommand word, placed.used.Subperm places ∧
        ∀ rating, ofRule rule (frame rating) = .ok (placed.command rating) := by
  rcases findValue?_drawn hdrawn rule.values with
    hnone | ⟨tag, inner, rest, span, left, hplaces, hfind, hspan, hleft⟩
  · have hmissing : ∀ rating, ofRule rule (frame rating) =
        .ok (ofMissingValue rule (frame rating) none) := fun rating => by rw [ofRule, hnone]
    obtain ⟨outer, houter, hcontent⟩ := hdrawn.exists_shallow
    refine .inr ⟨{ command := fun rating => ofMissingValue rule (frame rating) none,
                   concept := outer, span := [], legal := fun rating other => rfl,
                   hasConcept := fun rating other => rfl, content := fun rating => ?_,
                   spanAt := .inl ⟨rfl, fun rating => rfl⟩ },
      ?_, hmissing⟩
    · rw [← hcontent]
      exact List.flatMap_singleton ..
    · rw [PlacedCommand.used, List.append_nil]
      exact houter.subperm
  · cases hempty : (span fun _ => 0).isEmptyTag with
    | true =>
        have hmissing : ∀ rating, ofRule rule (frame rating) =
            .ok (ofMissingValue rule (left rating) (some (span rating))) := by
          intro rating
          rw [ofRule, hfind]
          exact if_pos ((hspan.isEmptyTag rating _).trans hempty)
        exact .inr (exists_placed_of_span hrule hplaces hspan hleft hmissing
          (fun _ => rfl) (fun _ => rfl) fun _ _ => rfl)
    | false =>
        have hread : ∀ rating, ofRule rule (frame rating) =
            ofValue rule tag (span rating) (left rating) := by
          intro rating
          rw [ofRule, hfind]
          exact if_neg (by simp [(hspan.isEmptyTag rating _).trans hempty])
        exact exists_placed_ofValue hrule hplaces hread hspan hleft

/-- A command without a concept is scored over places of its span. -/
theorem exists_placed_withoutConcept (hdrawn : Frame.DrawnAt word places frame) (type : String)
    (legal : Bool) :
    ∃ placed : PlacedCommand word, placed.used.Subperm places ∧ ∀ rating,
      placed.command rating = withoutConcept type legal (some (frame rating).shallow) := by
  obtain ⟨outer, houter, hcontent⟩ := hdrawn.exists_shallow
  refine ⟨{ command := fun rating => withoutConcept type legal (some (frame rating).shallow),
            concept := outer, span := [], legal := fun _ _ => rfl, hasConcept := fun _ _ => rfl,
            content := fun rating => ?_, spanAt := .inl ⟨rfl, fun _ => rfl⟩ },
    ?_, fun rating => rfl⟩
  · rw [← hcontent]
    exact List.flatMap_singleton ..
  · rw [PlacedCommand.used, List.append_nil]
    exact houter.subperm

/-- A command is scored over places of its span. -/
theorem exists_placed (hdrawn : Frame.DrawnAt word places frame) :
    (∀ rating, ∃ failure, ofFrame (frame rating) = .error failure) ∨
      ∃ placed : PlacedCommand word, placed.used.Subperm places ∧
        ∀ rating, ofFrame (frame rating) = .ok (placed.command rating) := by
  -- the type and the ends of the span can be read off the words
  have htype : ∀ rating, typeOf (frame rating) = typeOf (frame fun _ => 0) := by
    intro rating
    simp only [typeOf, Frame.firstWord?, hdrawn.words]
  have hends : ∀ rating, isUnbounded (frame rating) = isUnbounded (frame fun _ => 0) := by
    intro rating
    simp only [isUnbounded, Frame.firstWord?, Frame.lastWord?, hdrawn.words,
      hdrawn.strict rating fun _ => 0]
  cases hbounded : isUnbounded (frame fun _ => 0) with
  | true => exact .inl fun rating => ⟨_, ofFrame_of_isUnbounded ((hends rating).trans hbounded)⟩
  | false =>
      cases hkind : CommandKind.ofType (typeOf (frame fun _ => 0)) with
      | ruled rule =>
          have hruled : ∀ rating, ofFrame (frame rating) = ofRule rule (frame rating) :=
            fun rating =>
              ofFrame_of_ruled ((hends rating).trans hbounded) (htype rating ▸ hkind)
          simp only [hruled]
          exact exists_placed_ofRule (CommandKind.mem_all_of_ruled hkind) hdrawn
      | acknowledgement =>
          obtain ⟨placed, hused, hplaced⟩ :=
            exists_placed_withoutConcept hdrawn (typeOf (frame fun _ => 0)) true
          refine .inr ⟨placed, hused, fun rating => ?_⟩
          rw [hplaced, ← htype rating]
          exact ofFrame_of_acknowledgement ((hends rating).trans hbounded) (htype rating ▸ hkind)
      | unknown =>
          obtain ⟨placed, hused, hplaced⟩ :=
            exists_placed_withoutConcept hdrawn (typeOf (frame fun _ => 0)) false
          refine .inr ⟨placed, hused, fun rating => ?_⟩
          rw [hplaced, ← htype rating]
          exact ofFrame_of_unknown ((hends rating).trans hbounded) (htype rating ▸ hkind)

end Command

namespace Utterance

/-- The commands of a sentence are scored over places of different spans, none of them in front
of the first command. -/
theorem exists_placedCommands {quiet tail : List Nat}
    (hdrawn : Frame.DrawnAt word (quiet ++ tail) frame)
    (hquiet : ∀ place ∈ quiet, Tag.isCommandOpen (word place) = false) :
    (∀ rating, ∃ failure, commandsOf (frame rating) = .error failure) ∨
      ∃ placed : List (PlacedCommand word), (placed.flatMap (·.used)).Subperm tail ∧
        ∀ rating, commandsOf (frame rating) = .ok (placed.map (·.command rating)) := by
  -- what is left behind a command is shorter
  induction hlength : tail.length using Nat.strongRecOn generalizing tail frame with
  | _ length ih =>
      obtain ⟨inner, rest, span, left, htail, hcut, hspan, hleft⟩ :=
        hdrawn.cutSpan Tag.isCommandOpen (fun _ word => word == Tag.commandClose) hquiet
      have hcutCommand : ∀ rating, (frame rating).cutCommand = (span rating, left rating) := hcut
      rcases hspan with ⟨-, hnone⟩ | ⟨inside, hinside, hsome⟩
      · refine .inr ⟨[], List.nil_subperm, fun rating => ?_⟩
        rw [commandsOf_eq, hcutCommand, hnone]
        rfl
      · have hround : ∀ rating, commandsOf (frame rating) =
            (Command.ofFrame (inside rating)).bind fun command =>
              (commandsOf (left rating)).map (command :: ·) := by
          intro rating
          rw [commandsOf_eq, hcutCommand, hsome]
          dsimp only
          cases Command.ofFrame (inside rating) <;> rfl
        have hshorter : rest.length < length := by
          have hcutSome := hcutCommand fun _ => 0
          rw [hsome] at hcutSome
          have hlt := length_cutCommand_lt hcutSome
          rw [hleft.tokens, hdrawn.tokens, length_draw, length_draw, List.length_append,
            List.length_append] at hlt
          omega
        rcases Command.exists_placed hinside with hfailure | ⟨first, hfirst, hread⟩
        · refine .inl fun rating => ?_
          obtain ⟨failure, hfailure⟩ := hfailure rating
          exact ⟨failure, by rw [hround, hfailure]; rfl⟩
        · rcases ih _ hshorter hleft rfl with hfailure | ⟨placed, hplaced, hrest⟩
          · refine .inl fun rating => ?_
            obtain ⟨failure, hfailure⟩ := hfailure rating
            exact ⟨failure, by rw [hround, hread, hfailure]; rfl⟩
          · refine .inr ⟨first :: placed, ?_, fun rating => ?_⟩
            · exact (hfirst.append hplaced).trans htail.symm.subperm
            · rw [hround, hread, hrest]
              rfl

end Utterance

end Phraseology
