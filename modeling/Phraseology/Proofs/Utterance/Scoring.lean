import Mathlib.Data.List.Flatten
import Mathlib.Data.List.Nodup
import Phraseology.Proofs.Utterance.Placement

/-!
# Every token is scored at most once

The scores of a record are made of the confidences of some tokens (`Utterance.scored`,
`records_scored`): those of its callsign, or of the noise in front of the commands if there is
none, those of the words of its command outside further tags, and those of its value.  Which
places of the sentence they are from does not depend on the confidences (`exists_recordPlaces`).

In a sentence that starts as one, `scored_once`: no place counts twice in the total score, and
the score of the concept uses none of the span of the value.
-/

namespace Phraseology

variable {word : Nat → String} {places : List Nat} {frame : Rating → Frame}

/-! ## Records -/

/-- What a record is scored over. -/
structure Scored (α : Type) where
  /-- The words of its airline and flight number, or the noise that stands in for them. -/
  callsign : List α
  /-- The words of its command outside further tags. -/
  concept : List α
  /-- The words of its value. -/
  value : List α
  /-- The span of its value with the tags. -/
  span : List α

namespace Scored

variable {α β γ : Type}

/-- What the total score is made of. -/
def total (scored : Scored α) : List α :=
  scored.callsign ++ scored.concept ++ scored.value

def map (f : α → β) (scored : Scored α) : Scored β where
  callsign := scored.callsign.map f
  concept := scored.concept.map f
  value := scored.value.map f
  span := scored.span.map f

/-- Whether no place counts twice in the total score, and none of the span of the value in that
of the concept. -/
structure Once (places : Scored Nat) : Prop where
  nodup : places.total.Nodup
  disjoint : places.concept.Disjoint places.span

/-- Whether a record is scored over places that are there, each of them once. -/
structure TakenFrom (places : List Nat) (part : Scored Nat) : Prop where
  once : part.Once
  subset : part.callsign ++ part.concept ++ part.span ⊆ places
  value : part.value ⊆ part.span

theorem map_map (f : α → β) (g : β → γ) (scored : Scored α) :
    (scored.map f).map g = scored.map (g ∘ f) := by
  simp [map]

/-- What is scored is the same for functions that agree on the places it is taken from. -/
theorem TakenFrom.map_congr {places : List Nat} {part : Scored Nat} {f g : Nat → α}
    (htaken : part.TakenFrom places) (hsame : ∀ place ∈ places, f place = g place) :
    part.map f = part.map g := by
  obtain ⟨hfront, hspan⟩ := List.append_subset.mp htaken.subset
  obtain ⟨hcallsign, hconcept⟩ := List.append_subset.mp hfront
  have hvalue : part.value ⊆ places := List.Subset.trans htaken.value hspan
  have hpart : ∀ {chosen : List Nat}, chosen ⊆ places → chosen.map f = chosen.map g :=
    fun hchosen => List.map_congr_left fun place hplace => hsame place (hchosen hplace)
  rw [map, map, hpart hcallsign, hpart hconcept, hpart hspan, hpart hvalue]

end Scored

/-- The score of some tokens, if it is asked for. -/
def tokensScore (asked : Bool) (mode : ConfidenceMode) (tokens : List Token) : Option Float :=
  if asked then (mode.aggregate (tokens.map (·.confidence))).map roundScore else none

/-- Whether the scores of a record are made of certain tokens. -/
structure Record.ScoredOver (options : ExtractOptions) (record : Record) (scored : Scored Token) :
    Prop where
  callsign : record.callsignScore =
    tokensScore options.subConfidences options.mode scored.callsign
  concept : record.conceptScore = tokensScore options.subConfidences options.mode scored.concept
  total : record.totalScore = tokensScore options.totalConfidence options.mode scored.total

namespace Utterance

/-- What a record of some commands is scored over. -/
def scoredOver (utterance : Utterance) (commands : List Command) : Scored Token where
  callsign := utterance.callsign.frames.flatMap Frame.content
  concept := commands.flatMap fun command => command.conceptFrame.toList.flatMap Frame.content
  value := commands.flatMap fun command => command.valueFrame.toList.flatMap Frame.content
  span := commands.flatMap fun command => command.valueFrame.toList.flatMap Frame.tokens

/-- What the records are scored over: each over its command, and a single one without a concept
over all commands together. -/
def scored (utterance : Utterance) : List (Scored Token) :=
  match utterance.commands.filter (·.hasConcept) with
  | [] => if utterance.commands.isEmpty then [] else [utterance.scoredOver utterance.commands]
  | commands => commands.map fun command => utterance.scoredOver [command]

theorem jointScore_eq (frames : List Frame) (mode : ConfidenceMode) :
    Frame.jointScore frames mode true =
      mode.aggregate ((frames.flatMap Frame.content).map (·.confidence)) := by
  rw [Frame.jointScore, List.map_flatMap]
  rfl

/-- A field that has a score does not count as certain. -/
theorem fieldScore_jointScore (options : ExtractOptions) (frames : List Frame) :
    fieldScore options (Frame.jointScore frames options.mode true) =
      tokensScore options.subConfidences options.mode (frames.flatMap Frame.content) := by
  rw [jointScore_eq, fieldScore, tokensScore]
  have hactive := options.mode.aggregate_isSome
    ((frames.flatMap Frame.content).map (·.confidence))
  cases hscore : options.mode.aggregate ((frames.flatMap Frame.content).map (·.confidence)) with
  | none => simp [← hactive, hscore]
  | some score => simp [← hactive, hscore]

theorem framesScore_eq (options : ExtractOptions) (frames : List Frame) :
    framesScore options frames =
      tokensScore options.subConfidences options.mode (frames.flatMap Frame.content) := by
  rw [framesScore, jointScore_eq]
  rfl

theorem totalScore_eq (options : ExtractOptions) (callsign concept value : List Frame) :
    totalScore options (callsign ++ concept ++ value) =
      tokensScore options.totalConfidence options.mode
        (callsign.flatMap Frame.content ++ concept.flatMap Frame.content ++
          value.flatMap Frame.content) := by
  rw [totalScore, jointScore_eq, List.flatMap_append, List.flatMap_append]
  rfl

theorem commandRecord_scoredOver (utterance : Utterance) (options : ExtractOptions)
    (command : Command) :
    (utterance.commandRecord options command).ScoredOver options
      (utterance.scoredOver [command]) where
  callsign := fieldScore_jointScore options _
  concept := by
    rw [scoredOver, List.flatMap_singleton]
    exact fieldScore_jointScore options _
  total := by
    rw [scoredOver, List.flatMap_singleton, List.flatMap_singleton]
    exact totalScore_eq options _ _ _

theorem fallbackRecord_scoredOver (utterance : Utterance) (options : ExtractOptions) :
    (utterance.fallbackRecord options).ScoredOver options
      (utterance.scoredOver utterance.commands) where
  callsign := framesScore_eq options _
  concept := by
    rw [scoredOver, ← List.flatMap_assoc, ← List.filterMap_eq_flatMap_toList]
    exact framesScore_eq options _
  total := by
    rw [scoredOver, ← List.flatMap_assoc, ← List.flatMap_assoc,
      ← List.filterMap_eq_flatMap_toList, ← List.filterMap_eq_flatMap_toList]
    exact totalScore_eq options _ _ _

/-- Each record is scored over its tokens. -/
theorem records_scored (utterance : Utterance) (options : ExtractOptions) :
    List.Forall₂ (Record.ScoredOver options) (utterance.records options) utterance.scored := by
  unfold records scored
  cases utterance.commands.filter (·.hasConcept) with
  | nil =>
      dsimp only
      split
      · exact .nil
      · exact .cons (fallbackRecord_scoredOver utterance options) .nil
  | cons command commands =>
      dsimp only
      rw [List.forall₂_map_left_iff, List.forall₂_map_right_iff]
      exact List.forall₂_same.mpr fun command _ =>
        commandRecord_scoredOver utterance options command

/-! ## The places of a record -/

/-- The stand-in for commands is scored over nothing. -/
def placedNoConcept (word : Nat → String) : PlacedCommand word where
  command := fun _ => .noConcept
  concept := []
  span := []
  legal := fun _ _ => rfl
  hasConcept := fun _ _ => rfl
  content := fun _ => rfl
  spanAt := .inl ⟨rfl, fun _ => rfl⟩

/-- The places that a record of some commands is scored over. -/
def placesOver (callsign : List Nat) (commands : List (PlacedCommand word)) : Scored Nat where
  callsign := callsign
  concept := commands.flatMap (·.concept)
  value := commands.flatMap fun command => inside command.span
  span := commands.flatMap (·.span)

/-- The places that the records of some commands are scored over. -/
def recordPlaces (callsign : List Nat) (commands : List (PlacedCommand word)) :
    List (Scored Nat) :=
  match commands.filter fun placed => (placed.command fun _ => 0).hasConcept with
  | [] => if commands.isEmpty then [] else [placesOver callsign commands]
  | commands => commands.map fun command => placesOver callsign [command]

variable {utterance : Utterance} {callsign : List Nat} {commands : List (PlacedCommand word)}
  {rating : Rating}

theorem scoredOver_placed
    (hcallsign : utterance.callsign.frames.flatMap Frame.content = draw word callsign rating)
    (commands : List (PlacedCommand word)) :
    utterance.scoredOver (commands.map (·.command rating)) =
      (placesOver callsign commands).map (tokenAt word rating) := by
  have hdraw : ∀ places : PlacedCommand word → List Nat,
      (commands.flatMap places).map (tokenAt word rating) =
        commands.flatMap fun placed => draw word (places placed) rating := fun places =>
    List.map_flatMap ..
  rw [scoredOver, hcallsign, List.flatMap_map, List.flatMap_map, List.flatMap_map, placesOver,
    Scored.map, hdraw, hdraw, hdraw]
  simp only [PlacedCommand.content, fun placed : PlacedCommand word => placed.spanAt.content rating,
    fun placed : PlacedCommand word => placed.spanAt.tokens rating]
  rfl

theorem scored_placed
    (hcallsign : utterance.callsign.frames.flatMap Frame.content = draw word callsign rating)
    (hcommands : utterance.commands = commands.map (·.command rating)) :
    utterance.scored = (recordPlaces callsign commands).map (Scored.map (tokenAt word rating)) := by
  have hfilter : utterance.commands.filter (·.hasConcept) =
      (commands.filter fun placed => (placed.command fun _ => 0).hasConcept).map
        (·.command rating) := by
    rw [hcommands, List.filter_map]
    exact congrArg _ (List.filter_congr fun placed _ => placed.hasConcept rating _)
  unfold scored recordPlaces
  rw [hfilter]
  cases commands.filter fun placed => (placed.command fun _ => 0).hasConcept with
  | nil =>
      simp only [List.map_nil, hcommands, List.isEmpty_map]
      split
      · rfl
      · rw [scoredOver_placed hcallsign]
        rfl
  | cons first others =>
      simp only [List.map_cons, List.map_map]
      refine congrArg₂ _ (scoredOver_placed hcallsign [first]) (List.map_congr_left ?_)
      exact fun placed _ => scoredOver_placed hcallsign [placed]

theorem takenFrom_placesOver (hnodup : places.Nodup)
    (hused : (callsign ++ commands.flatMap (·.used)).Subperm places) :
    (placesOver callsign commands).TakenFrom places := by
  have hparts : (callsign ++ commands.flatMap (·.concept) ++ commands.flatMap (·.span)).Perm
      (callsign ++ commands.flatMap (·.used)) := by
    rw [List.append_assoc]
    exact (List.flatMap_append_perm ..).append_left callsign
  have hvalue : (commands.flatMap fun command => inside command.span).Sublist
      (commands.flatMap (·.span)) :=
    List.Sublist.flatMap_right commands fun command _ => inside_sublist command.span
  -- the value is from inside its span, so it is enough that no place of the spans comes twice
  obtain ⟨chosen, hperm, hchosen⟩ := hparts.subperm.trans hused
  have hall : (callsign ++ commands.flatMap (·.concept) ++ commands.flatMap (·.span)).Nodup :=
    hperm.nodup_iff.mp (hnodup.sublist hchosen)
  have hconcept : (commands.flatMap (·.concept) ++ commands.flatMap (·.span)).Nodup := by
    rw [List.append_assoc] at hall
    exact hall.of_append_right
  exact
    { once :=
        { nodup := hall.sublist (hvalue.append_left _)
          disjoint := List.disjoint_of_nodup_append hconcept }
      subset := fun place hplace => hchosen.subset (hperm.mem_iff.mpr hplace)
      value := hvalue.subset }

theorem takenFrom_of_mem_recordPlaces (hnodup : places.Nodup)
    (hused : (callsign ++ commands.flatMap (·.used)).Subperm places) {part : Scored Nat}
    (hpart : part ∈ recordPlaces callsign commands) : part.TakenFrom places := by
  have hsome : ∀ {some : List (PlacedCommand word)}, some.Sublist commands →
      (placesOver callsign some).TakenFrom places := fun hsome =>
    takenFrom_placesOver hnodup
      (((hsome.flatMap _).append_left callsign).subperm.trans hused)
  unfold recordPlaces at hpart
  split at hpart
  · split at hpart
    · cases hpart
    · obtain rfl := List.mem_singleton.mp hpart
      exact hsome (List.Sublist.refl _)
  · obtain ⟨command, hcommand, rfl⟩ := List.mem_map.mp hpart
    exact hsome (List.singleton_sublist.mpr (List.mem_filter.mp hcommand).1)

/-! ## The utterance -/

/-- The commands of an utterance, or the stand-in for them. -/
def legalOrStandIn (commands : List (PlacedCommand word)) : List (PlacedCommand word) :=
  let legal := commands.filter fun placed => (placed.command fun _ => 0).legal
  if legal.isEmpty then [placedNoConcept word] else legal

theorem commands_ofCommands (callsign : Callsign) (commands : List (PlacedCommand word))
    (rating : Rating) :
    (ofCommands callsign (commands.map (·.command rating))).commands =
      (legalOrStandIn commands).map (·.command rating) := by
  have hfilter : (commands.map (·.command rating)).filter (·.legal) =
      (commands.filter fun placed => (placed.command fun _ => 0).legal).map
        (·.command rating) := by
    rw [List.filter_map]
    exact congrArg _ (List.filter_congr fun placed _ => placed.legal rating _)
  simp only [ofCommands, legalOrStandIn, hfilter, List.isEmpty_map]
  split <;> rfl

theorem used_legalOrStandIn_sublist (commands : List (PlacedCommand word)) :
    ((legalOrStandIn commands).flatMap (·.used)).Sublist (commands.flatMap (·.used)) := by
  unfold legalOrStandIn
  dsimp only
  split
  · exact List.nil_sublist _
  · exact List.filter_sublist.flatMap _

/-- An utterance is scored over the same places under all ratings. -/
theorem exists_recordPlaces {start : Nat} (hdrawn : Frame.DrawnAt word (start :: places) frame)
    (hnodup : (start :: places).Nodup) (hstart : word start = Tag.sentenceOpen)
    (airlines : AirlineTable) (context : CallsignContext) :
    (∀ rating, ∃ failure, ofFrame (frame rating) airlines context = .error failure) ∨
      ∃ parts : List (Scored Nat), (∀ part ∈ parts, part.TakenFrom (start :: places)) ∧
        ∀ rating, ∃ utterance, ofFrame (frame rating) airlines context = .ok utterance ∧
          utterance.scored = parts.map (Scored.map (tokenAt word rating)) := by
  let quiet := start :: Frame.stretch word places
  let tail := places.dropWhile fun place => !Frame.endsStretch (word place)
  have hsplit : start :: places = quiet ++ tail :=
    congrArg (start :: ·) List.takeWhile_append_dropWhile.symm
  have hquiet : ∀ place ∈ quiet, Frame.endsStretch (word place) = false := by
    refine List.forall_mem_cons.mpr ⟨by rw [hstart]; decide, fun place hplace => ?_⟩
    simpa using List.mem_takeWhile_imp hplace
  have hopens : ∀ place ∈ quiet, (word place == Tag.callsignOpen) = false ∧
      Tag.isCommandOpen (word place) = false := fun place hplace =>
    Bool.or_eq_false_iff.mp (hquiet place hplace)
  -- the stretch stays in front of what the callsign leaves, so no command is cut out of it
  obtain ⟨inner, rest, span, left, htail, hcut, hspan, hleft⟩ :=
    Frame.DrawnAt.cutSpan (hsplit ▸ hdrawn) (· == Tag.callsignOpen)
      (fun _ word => word == Tag.callsignClose) fun place hplace => (hopens place hplace).1
  have hcutTag : ∀ rating, (frame rating).cutTag "callsign" = (span rating, left rating) := hcut
  have hread : ∀ rating, ofFrame (frame rating) airlines context =
      (callsignOf (frame rating) (span rating) airlines context).bind fun callsign =>
        (commandsOf (left rating)).map (ofCommands callsign) := by
    intro rating
    rw [ofFrame, hcutTag]
    dsimp only
    cases callsignOf (frame rating) (span rating) airlines context <;> rfl
  rcases exists_placedCallsign hdrawn hstart hspan airlines context with
    hfailure | ⟨callsign, chosen, hchosen, hcallsign, hframes⟩
  · refine .inl fun rating => ?_
    obtain ⟨failure, hfailure⟩ := hfailure rating
    exact ⟨failure, by rw [hread, hfailure]; rfl⟩
  rcases exists_placedCommands hleft (fun place hplace => (hopens place hplace).2) with
    hfailure | ⟨commands, hcommands, hbuilt⟩
  · refine .inl fun rating => ?_
    obtain ⟨failure, hfailure⟩ := hfailure rating
    exact ⟨failure, by rw [hread, hcallsign, hfailure]; rfl⟩
  · have hused :
        (chosen ++ (legalOrStandIn commands).flatMap (·.used)).Subperm (start :: places) := by
      have hparts : (quiet ++ inner ++ rest).Perm (start :: places) := by
        rw [hsplit, List.append_assoc]
        exact (htail.append_left quiet).symm
      exact (hchosen.append ((used_legalOrStandIn_sublist commands).subperm.trans hcommands)).trans
        hparts.subperm
    refine .inr ⟨recordPlaces chosen (legalOrStandIn commands), fun part hpart =>
      takenFrom_of_mem_recordPlaces hnodup hused hpart, fun rating =>
        ⟨ofCommands (callsign rating) (commands.map (·.command rating)), ?_, ?_⟩⟩
    · rw [hread, hcallsign, hbuilt]
      rfl
    · exact scored_placed (hframes rating) (commands_ofCommands _ commands rating)

/-- **Every token is scored at most once.**  In a sentence that starts as one, each record is
scored over the tokens at certain places, whatever confidences they have: those of the airline
and the flight number or the noise in front of the commands, of the words of its command outside
further tags, and of its value.  No place counts twice in the total score, and none of the span
of the value in the score of the concept.  A record without a concept has those of all commands
together. -/
theorem scored_once (hstart : sentence.firstWord? = some Tag.sentenceOpen) {heard : Utterance}
    (hread : ofFrame sentence airlines context = .ok heard) :
    ∃ parts : List (Scored Nat), (∀ part ∈ parts, part.Once) ∧
      ∀ other, sentence.SameWords other →
        ∃ utterance, ofFrame other airlines context = .ok utterance ∧
          utterance.scored.map (Scored.map some) =
            parts.map (Scored.map (other.tokens[·]?)) ∧
          ∀ options, List.Forall₂ (Record.ScoredOver options) (utterance.records options)
            utterance.scored := by
  obtain ⟨count, hcount⟩ : ∃ count, sentence.tokens.length = count + 1 := by
    refine Nat.exists_eq_add_one_of_ne_zero fun hzero => ?_
    rw [Frame.firstWord?, Frame.words, List.length_eq_zero_iff.mp hzero] at hstart
    cases hstart
  have hplaces : List.range sentence.tokens.length = 0 :: (List.range count).map Nat.succ := by
    rw [hcount, List.range_succ_eq_map]
  have hword : sentence.wordAt 0 = Tag.sentenceOpen := by
    rw [Frame.wordAt, List.getD_eq_getElem?_getD, ← List.head?_eq_getElem?]
    exact congrArg (Option.getD · "") hstart
  have hdrawn := sentence.drawnAt_rated
  have hnodup := List.nodup_range (n := sentence.tokens.length)
  rw [hplaces] at hdrawn hnodup
  rcases exists_recordPlaces hdrawn hnodup hword airlines context with
    hfailure | ⟨parts, hparts, hscored⟩
  · obtain ⟨failure, hfailure⟩ := hfailure sentence.ratingAt
    rw [sentence.rated_ratingAt, hread] at hfailure
    cases hfailure
  · refine ⟨parts, fun part hpart => (hparts part hpart).once, fun other hsame => ?_⟩
    obtain ⟨utterance, hutterance, htokens⟩ := hscored other.ratingAt
    rw [hsame.rated_eq, other.rated_ratingAt] at hutterance
    refine ⟨utterance, hutterance, ?_, utterance.records_scored⟩
    rw [htokens, List.map_map]
    refine List.map_congr_left fun part hpart => ?_
    have htaken := hparts part hpart
    rw [← hplaces] at htaken
    rw [Function.comp_apply, Scored.map_map]
    refine htaken.map_congr fun place hplace => ?_
    rw [← hsame.wordAt_eq, Frame.getElem?_tokens]
    · rfl
    · rw [hsame.length_eq]
      exact List.mem_range.mp hplace

/-- A climb with noise in front of it. -/
def noisySentence : Frame :=
  Frame.part (["<s>", "_spn_", "<command=\"climb\">", "climb", "<flightlevel>", "two", "hundred",
    "</flightlevel>", "</command>", "</s>"].map Token.plain) false

theorem scored_once_noisySentence :
    ∃ (heard : Utterance) (parts : List (Scored Nat)),
      ofFrame noisySentence .empty .empty = .ok heard ∧ (∀ part ∈ parts, part.Once) ∧
      heard.scored.map (Scored.map some) = parts.map (Scored.map (noisySentence.tokens[·]?)) := by
  have hends : ReadsToEnd noisySentence := ⟨by decide +kernel, by decide +kernel⟩
  obtain ⟨heard, hheard⟩ := (readIff_ofFrame_of_lenient rfl .empty .empty).read hends
  obtain ⟨parts, honce, hscored⟩ := scored_once rfl hheard
  obtain ⟨other, hother, htokens, -⟩ := hscored noisySentence ⟨rfl, rfl, rfl⟩
  obtain rfl := Except.ok.inj (hheard.symm.trans hother)
  exact ⟨heard, parts, hheard, honce, htokens⟩

end Utterance

end Phraseology
