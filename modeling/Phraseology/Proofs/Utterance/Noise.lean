import Phraseology.Proofs.Frame.Audibility
import Phraseology.Proofs.Utterance.Extraction

/-!
# Noise in an utterance

Numbers and runways are read without noise (`number?_quietWords`, `runway_quietWords`), and
tags are found without it.  But airlines, directions, contacts and waypoints are read word
by word, so that `rhein _spn_ radar` is another contact than `rhein radar`, and noise alone
counts as a flight number, a value or a limit.

Where noise occurs in neither of these ways (`Frame.Audible`), the callsign and the commands
are the same without it (`sameReading_of_audible`).  Otherwise they may not be
(`not_forall_sameReading`).
-/

namespace Phraseology

/-! ## Numbers -/

namespace Spoken

open Phraseology.Frame (isNoise quietWords)

/-- Where noise is not read, it may be left out. -/
theorem filterMap_quietWords {α : Type} {read? : String → Option α}
    (hnoise : ∀ word ∈ Frame.noiseWords, read? word = none) (words : List String) :
    (quietWords words).filterMap read? = words.filterMap read? := by
  induction words with
  | nil => rfl
  | cons word words ih =>
      cases hword : isNoise word with
      | true =>
          have hread : read? word = none := hnoise word (by simpa [isNoise] using hword)
          rw [quietWords, List.filter_cons_of_neg (by simp [hword]),
            List.filterMap_cons_none hread]
          exact ih
      | false =>
          rw [quietWords, List.filter_cons_of_pos (by simp [hword]), List.filterMap_cons,
            List.filterMap_cons, ← quietWords, ih]

theorem numberChars?_quietWords (words : List String) :
    numberChars? (quietWords words) = numberChars? words := by
  have hnoise : ∀ word ∈ Frame.noiseWords, NumberWord.ofWord? word = none := by decide
  rw [numberChars?, numberWords, filterMap_quietWords hnoise]
  rfl

theorem number?_quietWords (words : List String) : number? (quietWords words) = number? words := by
  rw [number?, numberChars?_quietWords]
  rfl

theorem runway_quietWords (words : List String) : runway (quietWords words) = runway words := by
  have hnoise : ∀ word ∈ Frame.noiseWords,
      (Alphabet.symbol? word).or (runwaySides.lookup word) = none := by decide
  rw [runway, filterMap_quietWords hnoise]
  rfl

theorem frequency?_quietWords (words : List String) :
    frequency? (quietWords words) = frequency? words := by
  rw [frequency?, numberChars?_quietWords]
  rfl

end Spoken

/-! ## Callsigns -/

namespace Callsign

variable {frame : Frame} {airlines : AirlineTable} {context : CallsignContext}

/-- A flight number is read the same without noise. -/
theorem spokenNumber_quiet {flightNumberFrame : Option Frame}
    (hnumber : ∀ span ∈ flightNumberFrame,
      span.firstWord? = some "<flightnumber>" ∧ span.Telling) :
    spokenNumber (flightNumberFrame.map Frame.quiet) = spokenNumber flightNumberFrame := by
  cases flightNumberFrame with
  | none => rfl
  | some span =>
      obtain ⟨hfirst, htelling⟩ := hnumber span rfl
      have hempty := htelling.isEmptyTag_quiet hfirst (by decide)
      have hcontent := Frame.contentWords_quiet hfirst (by decide) htelling.last
      cases hspoken : span.isEmptyTag <;>
        simp [spokenNumber, spoken?, Option.filter, hempty, hspoken, hcontent,
          Spoken.number?_quietWords]

/-- The callsign of two spans has the same halves without noise. -/
theorem ofSpans_quiet {airlineFrame : Option Frame} (hairline : ∀ span ∈ airlineFrame, span.Clear)
    (flightNumberFrame : Option Frame) (number : Option String) :
    (ofSpans airlines context (airlineFrame.map Frame.quiet) (flightNumberFrame.map Frame.quiet)
        number).airline =
      (ofSpans airlines context airlineFrame flightNumberFrame number).airline ∧
    (ofSpans airlines context (airlineFrame.map Frame.quiet) (flightNumberFrame.map Frame.quiet)
        number).flightNumber =
      (ofSpans airlines context airlineFrame flightNumberFrame number).flightNumber := by
  have hsame : airlineFrame.map Frame.quiet = airlineFrame := by
    cases airlineFrame with
    | none => rfl
    | some span => rw [Option.map_some, (hairline span rfl).quiet_eq]
  rw [hsame]
  exact ⟨rfl, rfl⟩

theorem code_congr {first second : Callsign} (hairline : first.airline = second.airline)
    (hnumber : first.flightNumber = second.flightNumber) : first.code = second.code := by
  cases first
  cases second
  cases hairline
  cases hnumber
  rfl

/-- A callsign is the same without noise. -/
theorem ofFrame_quiet (haudible : frame.Audible)
    (hfirst : frame.firstWord? = some Tag.callsignOpen) {callsign : Callsign}
    (hread : ofFrame frame airlines context = .ok callsign) :
    ∃ other, ofFrame frame.quiet airlines context = .ok other ∧
      other.airline = callsign.airline ∧ other.flightNumber = callsign.flightNumber := by
  have hairline : ∀ span ∈ (frame.cutTag "airline").1, span.Clear :=
    fun span hspan => (haudible.cutTag (by decide) hspan).2.1.words (by decide)
  have hrest : (frame.cutTag "airline").2.Audible := haudible.leftOfTag (by decide)
  have hnumber : ∀ span ∈ ((frame.cutTag "airline").2.cutTag "flightnumber").1,
      span.firstWord? = some "<flightnumber>" ∧ span.Telling := by
    intro span hspan
    obtain ⟨hname, hspeaks, -⟩ := hrest.cutTag (by decide) hspan
    exact ⟨hname, hspeaks.present List.mem_cons_self⟩
  unfold ofFrame at hread ⊢
  split at hread
  · cases hread
  · next hbounds =>
      have hquietBounds : ¬ (frame.quiet.strict &&
          !(frame.quiet.firstWord? == some Tag.callsignOpen &&
            frame.quiet.lastWord? == some Tag.callsignClose)) = true := by
        intro hrefused
        apply hbounds
        simp only [Bool.and_eq_true, Bool.not_eq_true', Bool.and_eq_false_iff] at hrefused ⊢
        refine ⟨hrefused.1, hrefused.2.imp (fun h => ?_) (Frame.lastWord?_beq_of_quiet (by decide))⟩
        rw [Frame.firstWord?_quiet hfirst (by decide)] at h
        cases h
      rw [if_neg hquietBounds]
      simp only [Frame.cutTag_quiet, spokenNumber_quiet hnumber]
      cases hspoken : spokenNumber ((frame.cutTag "airline").2.cutTag "flightnumber").1 with
      | error failure =>
          simp only [hspoken] at hread
          cases hread
      | ok number =>
          simp only [hspoken] at hread
          obtain rfl := Except.ok.inj hread
          exact ⟨_, rfl, ofSpans_quiet hairline _ number⟩

end Callsign

/-! ## Limits -/

namespace LimitRule

variable {frame : Frame} {directionTerms boundaryTerms terms : List String}

/-- Words for limits. -/
def AreLimits (terms : List String) : Prop :=
  ∀ term ∈ terms, term ∈ upward ++ downward

theorem AreLimits.not_isNoise (hterms : AreLimits terms) :
    ∀ term ∈ terms, Frame.isNoise term = false := by
  have hlimits : ∀ term ∈ upward ++ downward, Frame.isNoise term = false := by decide
  exact fun term hterm => hlimits term (hterms term hterm)

theorem isSpoken_quiet (haudible : frame.Audible) (hterms : AreLimits terms) :
    isSpoken ((frame.cutAnyTag terms).1.map Frame.quiet) = isSpoken (frame.cutAnyTag terms).1 := by
  cases hcut : (frame.cutAnyTag terms).1 with
  | none => rfl
  | some span =>
      obtain ⟨name, hname, hfirst, hspeaks⟩ := haudible.cutAnyTag hcut
      have htelling : span.Telling :=
        hspeaks.present (List.mem_append_right _ (hterms name hname))
      simp [isSpoken, htelling.isEmptyTag_quiet hfirst (Frame.isNoise_opener name)]

theorem containsAny_quiet (hterms : AreLimits terms) (frame : Frame) :
    frame.quiet.containsAny terms = frame.containsAny terms := by
  rw [Bool.eq_iff_iff, Frame.containsAny, Frame.containsAny, Frame.words_quiet, List.any_eq_true,
    List.any_eq_true]
  constructor
  · rintro ⟨word, hword, hterm⟩
    exact ⟨word, (List.mem_filter.mp hword).1, hterm⟩
  · rintro ⟨word, hword, hterm⟩
    refine ⟨word, List.mem_filter.mpr ⟨hword, ?_⟩, hterm⟩
    rw [hterms.not_isNoise word (by simpa using hterm)]
    rfl

theorem suffixAmong?_quiet (rule : LimitRule) (haudible : frame.Audible)
    (hdirection : AreLimits directionTerms) (hboundary : AreLimits boundaryTerms) :
    rule.suffixAmong? directionTerms boundaryTerms frame.quiet =
      rule.suffixAmong? directionTerms boundaryTerms frame := by
  have hrest : (frame.cutAnyTag directionTerms).2.Audible := 
    haudible.left (.anyTag directionTerms) trivial
  simp only [suffixAmong?, Frame.cutAnyTag_quiet, isSpoken_quiet haudible hdirection,
    isSpoken_quiet hrest hboundary, containsAny_quiet hdirection, containsAny_quiet hboundary]

/-- A limit is the same without noise. -/
theorem suffix?_quiet (rule : LimitRule) (haudible : frame.Audible)
    (hdirection : AreLimits rule.directionTerms) (hboundary : AreLimits rule.boundaryTerms) :
    rule.suffix? frame.quiet = rule.suffix? frame := by
  have hrest : (frame.cutTag "neg").2.Audible := haudible.leftOfTag (by decide)
  unfold suffix?
  rw [Frame.cutTag_quiet]
  cases hneg : frame.cutTag "neg" with
  | mk span rest =>
      rw [hneg] at hrest
      cases span with
      | none => exact rule.suffixAmong?_quiet hrest hdirection hboundary
      | some span => exact rule.suffixAmong?_quiet hrest hboundary hdirection

end LimitRule

/-! ## Commands -/

/-- The words for the limits of a modifier. -/
def Modifier.limitTerms : Modifier → List String
  | .limit rule => rule.directionTerms ++ rule.boundaryTerms
  | .renamed _ rule => rule.directionTerms ++ rule.boundaryTerms
  | .override _ rule => rule.directionTerms ++ rule.boundaryTerms
  | _ => []

namespace Command

variable {frame : Frame} {rule : CommandRule}

/-- What is read from a command. -/
def reading (command : Command) : String × String × Option String × Option String × Bool :=
  (command.type, command.concept, command.value, command.metric, command.legal)

theorem direction?_quiet (haudible : frame.Audible) :
    direction? frame.quiet = direction? frame := by
  have hsame : (frame.cutTag "direction").1.map Frame.quiet = (frame.cutTag "direction").1 := by
    cases hcut : (frame.cutTag "direction").1 with
    | none => rfl
    | some span =>
        have hclear : span.Clear := (haudible.cutTag (by decide) hcut).2.1.words (by decide)
        rw [Option.map_some, hclear.quiet_eq]
  simp only [direction?, Frame.cutTag_quiet, hsame]

/-- A concept is modified in the same way without noise. -/
theorem modifiedConcept?_quiet (modifier : Modifier) (plain : String) (haudible : frame.Audible)
    (hlimits : LimitRule.AreLimits modifier.limitTerms) :
    modifiedConcept? modifier plain frame.quiet = modifiedConcept? modifier plain frame := by
  have hsuffix : ∀ rule : LimitRule,
      LimitRule.AreLimits (rule.directionTerms ++ rule.boundaryTerms) →
        rule.suffix? frame.quiet = rule.suffix? frame := by
    intro rule hterms
    obtain ⟨hdirection, hboundary⟩ := List.forall_mem_append.mp hterms
    exact rule.suffix?_quiet haudible hdirection hboundary
  cases modifier with
  | plain => rfl
  | limit rule => simp only [modifiedConcept?, hsuffix rule hlimits]
  | renamed name rule => simp only [modifiedConcept?, hsuffix rule hlimits]
  | override name rule => simp only [modifiedConcept?, hsuffix rule hlimits]
  | turnBy => simp only [modifiedConcept?, direction?_quiet haudible]
  | turnToHeading => simp only [modifiedConcept?, direction?_quiet haudible]

theorem findValue?_quiet (frame : Frame) (tags : List ValueTag) :
    findValue? frame.quiet tags = (findValue? frame tags).map fun (tag, span, left) =>
      (tag, span.quiet, left.quiet) := by
  induction tags with
  | nil => rfl
  | cons tag tags ih =>
      unfold findValue?
      rw [Frame.cutTag_quiet]
      cases frame.cutTag tag.tag with
      | mk span left =>
          cases span with
          | none => exact ih
          | some span => rfl

/-- A value is written the same without noise. -/
theorem valueText?_quiet {kind : ValueKind} {span : Frame} {first : String}
    (hfirst : span.firstWord? = some first) (hnoise : Frame.isNoise first = false)
    (htelling : span.Telling) (hclear : kind = .contact ∨ kind = .waypoint → span.Clear) :
    valueText? kind span.quiet.contentWords = valueText? kind span.contentWords := by
  have hcontent := Frame.contentWords_quiet hfirst hnoise htelling.last
  cases kind with
  | number => rw [hcontent, valueText?, Spoken.number?_quietWords]; rfl
  | waypoint => rw [(hclear (.inr rfl)).quiet_eq]
  | runway => rw [hcontent, valueText?, Spoken.runway_quietWords]; rfl
  | contact => rw [(hclear (.inl rfl)).quiet_eq]
  | frequency => rw [hcontent, valueText?, Spoken.frequency?_quietWords]; rfl

theorem areLimits_of_rule (hrule : rule ∈ CommandRule.all) :
    LimitRule.AreLimits rule.modifier.limitTerms := by
  have hrules : ∀ rule ∈ CommandRule.all, ∀ term ∈ rule.modifier.limitTerms,
      term ∈ LimitRule.upward ++ LimitRule.downward := by decide
  exact hrules rule hrule

theorem mem_presenceTags_of_rule (hrule : rule ∈ CommandRule.all) {tag : ValueTag}
    (htag : tag ∈ rule.values) : tag.tag ∈ Frame.presenceTags := by
  refine List.mem_append_left _ (List.mem_cons_of_mem _ ?_)
  exact List.mem_flatMap.mpr ⟨rule, hrule, List.mem_map_of_mem htag⟩

theorem mem_wordTags_of_rule (hrule : rule ∈ CommandRule.all) {tag : ValueTag}
    (htag : tag ∈ rule.values) (hkind : tag.kind = .contact ∨ tag.kind = .waypoint) :
    tag.tag ∈ Frame.wordTags := by
  have hrules : ∀ rule ∈ CommandRule.all, ∀ tag ∈ rule.values,
      tag.kind = .contact ∨ tag.kind = .waypoint → tag.tag ∈ Frame.wordTags := by decide
  exact hrules rule hrule tag htag hkind

/-- A command with words for its value is read the same without noise. -/
theorem ofValue_quiet {tag : ValueTag} {span left : Frame}
    (hmodified : modifiedConcept? rule.modifier (Text.upper rule.type) left.quiet =
      modifiedConcept? rule.modifier (Text.upper rule.type) left)
    (hvalueText : valueText? tag.kind span.quiet.contentWords =
      valueText? tag.kind span.contentWords)
    {command : Command} (hread : ofValue rule tag span left = .ok command) :
    ∃ other, ofValue rule tag span.quiet left.quiet = .ok other ∧
      other.reading = command.reading := by
  unfold ofValue
  rw [hmodified, hvalueText]
  rcases ofValue_cases hread with ⟨concept, value, hconcept, hvalue, rfl⟩ | ⟨hnone, rfl⟩
  · rw [hconcept, hvalue]
    exact ⟨_, rfl, rfl⟩
  · rw [hnone]
    exact ⟨_, rfl, rfl⟩

/-- A command of some rule is read the same without noise. -/
theorem ofRule_quiet (hrule : rule ∈ CommandRule.all) (haudible : frame.Audible)
    {command : Command} (hread : ofRule rule frame = .ok command) :
    ∃ other, ofRule rule frame.quiet = .ok other ∧ other.reading = command.reading := by
  unfold ofRule at hread ⊢
  rw [findValue?_quiet]
  cases hfind : findValue? frame rule.values with
  | none =>
      rw [hfind] at hread
      obtain rfl := Except.ok.inj hread
      exact ⟨_, rfl, rfl⟩
  | some found =>
      obtain ⟨tag, span, left⟩ := found
      obtain ⟨htag, hcut⟩ := cutTag_of_findValue? hfind
      obtain ⟨hname, -⟩ := CommandRule.isName_of_mem_values hrule htag
      obtain ⟨hfirst, hspeaks, -⟩ :=
        haudible.cutTag hname (Option.mem_def.mpr (congrArg Prod.fst hcut))
      have hleft : left.Audible := by
        have hrest : (frame.cutTag tag.tag).2.Audible := haudible.leftOfTag hname
        rwa [hcut] at hrest
      have hnoise := Frame.isNoise_opener tag.tag
      have htelling := hspeaks.present (mem_presenceTags_of_rule hrule htag)
      have hclear := fun hkind => hspeaks.words (mem_wordTags_of_rule hrule htag hkind)
      rw [hfind] at hread
      simp only [Option.map_some, htelling.isEmptyTag_quiet hfirst hnoise] at hread ⊢
      cases hempty : span.isEmptyTag with
      | true =>
          rw [hempty] at hread
          obtain rfl := Except.ok.inj hread
          exact ⟨_, rfl, rfl⟩
      | false =>
          rw [hempty] at hread
          exact ofValue_quiet
            (modifiedConcept?_quiet rule.modifier _ hleft (areLimits_of_rule hrule))
            (valueText?_quiet hfirst hnoise htelling hclear) hread

/-- A command is read the same without noise. -/
theorem ofFrame_quiet (haudible : frame.Audible) {first : String}
    (hfirst : frame.firstWord? = some first) (hnoise : Frame.isNoise first = false)
    {command : Command} (hread : ofFrame frame = .ok command) :
    ∃ other, ofFrame frame.quiet = .ok other ∧ other.reading = command.reading := by
  have hquietFirst := Frame.firstWord?_quiet hfirst hnoise
  unfold ofFrame at hread ⊢
  rw [hfirst] at hread
  rw [hquietFirst]
  simp only at hread ⊢
  split at hread
  · cases hread
  · next hbounds =>
      have hquietBounds : ¬ (frame.quiet.strict &&
          !(((some first).bind Tag.commandType?).isSome &&
            frame.quiet.lastWord? == some Tag.commandClose)) = true := by
        intro hrefused
        apply hbounds
        simp only [Bool.and_eq_true, Bool.not_eq_true', Bool.and_eq_false_iff] at hrefused ⊢
        exact ⟨hrefused.1, hrefused.2.imp_right (Frame.lastWord?_beq_of_quiet (by decide))⟩
      rw [if_neg hquietBounds]
      cases hkind : CommandKind.ofType (((some first).bind Tag.commandType?).getD "") with
      | ruled rule =>
          rw [hkind] at hread
          exact ofRule_quiet (CommandKind.mem_all_of_ruled hkind) haudible hread
      | acknowledgement =>
          rw [hkind] at hread
          obtain rfl := Except.ok.inj hread
          exact ⟨_, rfl, rfl⟩
      | unknown =>
          rw [hkind] at hread
          obtain rfl := Except.ok.inj hread
          exact ⟨_, rfl, rfl⟩

end Command

/-! ## Utterances -/

namespace Utterance

open Command (reading)

variable {frame : Frame} {airlines : AirlineTable} {context : CallsignContext}

/-- The commands are read the same without noise. -/
theorem commandsOf_quiet (haudible : frame.Audible) {commands : List Command}
    (hread : commandsOf frame = .ok commands) :
    ∃ others, commandsOf frame.quiet = .ok others ∧
      others.map reading = commands.map reading := by
  -- what is left behind a command is shorter
  induction hlength : frame.tokens.length using Nat.strongRecOn
    generalizing frame commands with
  | _ length ih =>
      have hleft : frame.cutCommand.2.Audible := haudible.left .command trivial
      rw [commandsOf_eq] at hread
      rw [commandsOf_eq, Frame.cutCommand_quiet]
      cases hcut : frame.cutCommand with
      | mk span rest =>
          rw [hcut] at hread hleft
          cases span with
          | none =>
              obtain rfl := Except.ok.inj hread
              exact ⟨[], rfl, rfl⟩
          | some span =>
              have hspan : span ∈ frame.cutCommand.1 := by rw [hcut]; rfl
              have hspanAudible : span.Audible := haudible.span .command trivial hspan
              obtain ⟨first, hfirst, hopens⟩ := Frame.firstWord?_of_cutSpan hspan
              have hnoise : Frame.isNoise first = false := by
                rw [← Bool.not_eq_true]
                intro hnoise
                have hquiet : Tag.isCommandOpen first = false :=
                  (Target.command.ignoresNoise hnoise).1
                rw [hquiet] at hopens
                cases hopens
              simp only at hread ⊢
              cases hcommand : Command.ofFrame span with
              | error failure => simp [hcommand] at hread
              | ok command =>
                  simp only [hcommand] at hread
                  obtain ⟨other, hother, hsame⟩ :=
                    Command.ofFrame_quiet hspanAudible hfirst hnoise hcommand
                  cases hrest : commandsOf rest with
                  | error failure => simp [hrest, Except.map] at hread
                  | ok more =>
                      have hshorter := hlength ▸ length_cutCommand_lt hcut
                      obtain ⟨others, hothers, hmore⟩ := ih _ hshorter hleft hrest rfl
                      rw [hrest] at hread
                      obtain rfl := Except.ok.inj hread
                      refine ⟨other :: others, ?_, by rw [List.map_cons, hsame, hmore]; rfl⟩
                      simp only [Option.map_some, hother, hothers]
                      rfl

/-- The callsign has the same code without noise. -/
theorem callsignOf_quiet (haudible : frame.Audible) {callsign : Callsign}
    (hread : callsignOf frame (frame.cutTag "callsign").1 airlines context = .ok callsign) :
    ∃ other, callsignOf frame.quiet (frame.quiet.cutTag "callsign").1 airlines context =
      .ok other ∧ other.code = callsign.code := by
  -- the noise that stands in for a callsign is no part of its code
  have hcode : ∀ (first second : Callsign), first.airline = second.airline →
      first.flightNumber = second.flightNumber →
      (if first.isCallsign then first else first.withNoise frame.quiet).code =
        (if second.isCallsign then second else second.withNoise frame).code := by
    intro first second hairline hnumber
    have hsame : first.isCallsign = second.isCallsign := by
      simp only [Callsign.isCallsign, hairline, hnumber]
    rw [hsame]
    split <;> exact Callsign.code_congr hairline hnumber
  rw [Frame.cutTag_quiet]
  unfold callsignOf at hread ⊢
  cases hspan : (frame.cutTag "callsign").1 with
  | none =>
      rw [hspan] at hread
      obtain rfl := Except.ok.inj hread
      exact ⟨_, rfl, hcode _ _ rfl rfl⟩
  | some span =>
      rw [hspan] at hread
      have hspanAudible : span.Audible := (haudible.cutTag (by decide) hspan).2.2
      have hfirst : span.firstWord? = some Tag.callsignOpen := (haudible.cutTag (by decide) hspan).1
      simp only at hread
      cases hfound : Callsign.ofFrame span airlines context with
      | error failure => simp [hfound, Except.map] at hread
      | ok found =>
          obtain ⟨other, hother, hairline, hnumber⟩ :=
            Callsign.ofFrame_quiet hspanAudible hfirst hfound
          rw [hfound] at hread
          obtain rfl := Except.ok.inj hread
          simp only [Option.map_some, hother]
          exact ⟨_, rfl, hcode _ _ hairline hnumber⟩

/-- Commands that are read the same are the same to a choice by their legality. -/
theorem map_reading_filter {others commands : List Command}
    (hsame : others.map reading = commands.map reading) (chooses : Bool → Bool) :
    (others.filter fun command => chooses command.legal).map reading =
      (commands.filter fun command => chooses command.legal).map reading := by
  have hfilter : ∀ built : List Command,
      (built.filter fun command => chooses command.legal).map reading =
        (built.map reading).filter fun read => chooses read.2.2.2.2 := by
    intro built
    rw [List.filter_map]
    rfl
  rw [hfilter, hfilter, hsame]

theorem map_reading_commands {first second : Callsign} {others commands : List Command}
    (hsame : others.map reading = commands.map reading) :
    (ofCommands first others).commands.map reading =
      (ofCommands second commands).commands.map reading := by
  have hlegal : (others.filter (·.legal)).map reading = (commands.filter (·.legal)).map reading :=
    map_reading_filter hsame id
  have hempty : (others.filter (·.legal)).isEmpty = (commands.filter (·.legal)).isEmpty := by
    rw [← List.isEmpty_map (f := reading), hlegal, List.isEmpty_map]
  simp only [ofCommands, hempty]
  split
  · rfl
  · exact hlegal

/-- **Noise makes no difference where it is not read.**  If noise stands in no span that is
read word by word, and makes up no span of which it counts whether anything was spoken,
then the callsign has the same code without noise, and the commands are read the same. -/
theorem sameReading_of_audible (haudible : frame.Audible) {utterance : Utterance}
    (hread : ofFrame frame airlines context = .ok utterance) :
    ∃ other, ofFrame frame.quiet airlines context = .ok other ∧
      other.callsign.code = utterance.callsign.code ∧
      other.commands.map reading = utterance.commands.map reading ∧
      other.dropped.map reading = utterance.dropped.map reading := by
  unfold ofFrame at hread ⊢
  simp only at hread ⊢
  cases hcallsign : callsignOf frame (frame.cutTag "callsign").1 airlines context with
  | error failure => simp [hcallsign] at hread
  | ok callsign =>
      simp only [hcallsign] at hread
      cases hcommands : commandsOf (frame.cutTag "callsign").2 with
      | error failure => simp [hcommands, Except.map] at hread
      | ok commands =>
          rw [hcommands] at hread
          obtain rfl := Except.ok.inj hread
          obtain ⟨otherCallsign, hotherCallsign, hcode⟩ := callsignOf_quiet haudible hcallsign
          have hleft : (frame.cutTag "callsign").2.Audible := haudible.leftOfTag (by decide)
          obtain ⟨others, hothers, hsame⟩ := commandsOf_quiet hleft hcommands
          refine ⟨ofCommands otherCallsign others, ?_, hcode, ?_, ?_⟩
          · rw [Frame.cutTag_quiet] at hotherCallsign ⊢
            simp only [hotherCallsign, hothers]
            rfl
          · exact map_reading_commands hsame
          · exact map_reading_filter hsame (!·)

/-- A climb with noise in the flight number, in the level and among the other words. -/
def noisyClimb : Frame :=
  Frame.part (["<s>", "_spn_", "<callsign>", "<airline>", "lufthansa", "</airline>",
    "<flightnumber>", "four", "_nsn_", "five", "six", "</flightnumber>", "</callsign>",
    "<command=\"climb\">", "climb", "_spn_", "<flightlevel>", "one", "_spn_", "hundred",
    "</flightlevel>", "</command>", "</s>"].map Token.plain) false

theorem audible_noisyClimb : noisyClimb.Audible := by
  have hairline : ReadSpan "airline" (Token.plain "<airline>") (["lufthansa"].map Token.plain)
      (Token.plain "</airline>") :=
    ⟨by decide, rfl, rfl, by decide, by decide, .inr ⟨_, .head _, rfl⟩⟩
  have hnumber : ReadSpan "flightnumber" (Token.plain "<flightnumber>")
      (["four", "_nsn_", "five", "six"].map Token.plain) (Token.plain "</flightnumber>") :=
    ⟨by decide, rfl, rfl, by decide, by decide, .inr ⟨_, .head _, rfl⟩⟩
  have hlevel : ReadSpan "flightlevel" (Token.plain "<flightlevel>")
      (["one", "_spn_", "hundred"].map Token.plain) (Token.plain "</flightlevel>") :=
    ⟨by decide, rfl, rfl, by decide, by decide, .inr ⟨_, .head _, rfl⟩⟩
  have hend : Flat (["</command>", "</s>"].map Token.plain) :=
    .cons _ (by decide) (.cons _ (by decide) .nil)
  have hbehind : Flat (["</callsign>", "<command=\"climb\">", "climb", "_spn_"].map Token.plain ++
      (Token.plain "<flightlevel>" :: ["one", "_spn_", "hundred"].map Token.plain ++
        Token.plain "</flightlevel>" :: ["</command>", "</s>"].map Token.plain)) :=
    .of_unread (by decide) (.span hlevel hend)
  have hstart : Flat noisyClimb.tokens :=
    .cons _ (by decide) (.cons _ (by decide) (.cons _ (by decide)
      (.span hairline (.span hnumber hbehind))))
  exact hstart.audible

/-- A table with one airline. -/
def oneAirline : AirlineTable where
  entries := #[{ code := "DLH", name := "lufthansa" }]
  index := (∅ : Std.TreeMap String Nat).insert "lufthansa" 0

set_option synthInstance.maxSize 300 in
theorem sameReading_noisyClimb :
    noisyClimb.Audible ∧ ∃ utterance other,
      ofFrame noisyClimb oneAirline .empty = .ok utterance ∧
      ofFrame noisyClimb.quiet oneAirline .empty = .ok other ∧
      utterance.callsign.code = "DLH456" ∧ other.callsign.code = "DLH456" ∧
      utterance.commands.map reading = [("climb", "CLIMB", some "100", some "FL", true)] ∧
      other.commands.map reading = [("climb", "CLIMB", some "100", some "FL", true)] := by
  have hvalues : (ofFrame noisyClimb oneAirline .empty).toOption.map
      (fun read => (read.callsign.code, read.commands.map reading)) =
        some ("DLH456", [("climb", "CLIMB", some "100", some "FL", true)]) := by
    decide +kernel
  cases hread : ofFrame noisyClimb oneAirline .empty with
  | error failure =>
      rw [hread] at hvalues
      cases hvalues
  | ok utterance =>
      rw [hread] at hvalues
      obtain ⟨hcode, hcommands⟩ := Prod.mk.inj (Option.some.inj hvalues)
      obtain ⟨other, hother, hsameCode, hsameCommands, -⟩ :=
        sameReading_of_audible audible_noisyClimb hread
      exact ⟨audible_noisyClimb, utterance, other, rfl, hother, hcode, hsameCode.trans hcode,
        hcommands, hsameCommands.trans hcommands⟩

/-- A callsign that is nothing but noise. -/
def noisyCallsign : Frame where
  tokens := ["<callsign>", "<flightnumber>", "_spn_", "</flightnumber>", "</callsign>"].map
    Token.plain
  strict := false
  unmatchedClosings := []

/-- Noise does make a difference: with a flight number of noise alone there is a callsign,
and without the noise there is none. -/
theorem not_forall_sameReading :
    ¬ ∀ (text : String) (frame : Frame) (airlines : AirlineTable) (context : CallsignContext)
      (utterance other : Utterance), Frame.read text false = .ok (some frame) →
        ofFrame frame airlines context = .ok utterance →
        ofFrame frame.quiet airlines context = .ok other →
        other.callsign.code = utterance.callsign.code ∧
          other.commands.map reading = utterance.commands.map reading := by
  intro hall
  have hread : Frame.read "<callsign><flightnumber>_spn_" false = .ok (some noisyCallsign) := by
    have hnormal : Frame.normalWords "<callsign><flightnumber>_spn_" =
        ["<callsign>", "<flightnumber>", "_spn_"] := by decide
    unfold Frame.read
    rw [hnormal]
    rfl
  have hnoisy : ∃ callsign, ofFrame noisyCallsign .empty .empty = .ok (ofCommands callsign []) ∧
      callsign.code = "NO_AIRLINE_" := by
    have hcommands : commandsOf (noisyCallsign.cutTag "callsign").2 = .ok [] := commandsOf_eq _
    unfold ofFrame
    simp only [hcommands]
    exact ⟨_, rfl, by decide⟩
  have hquiet : ∃ callsign, ofFrame noisyCallsign.quiet .empty .empty =
      .ok (ofCommands callsign []) ∧ callsign.code = "NO_CALLSIGN" := by
    have hcommands : commandsOf (noisyCallsign.quiet.cutTag "callsign").2 = .ok [] :=
      commandsOf_eq _
    unfold ofFrame
    simp only [hcommands]
    exact ⟨_, rfl, by decide⟩
  obtain ⟨callsign, hutterance, hcode⟩ := hnoisy
  obtain ⟨other, hother, hotherCode⟩ := hquiet
  obtain ⟨hsame, -⟩ := hall _ noisyCallsign .empty .empty _ _ hread hutterance hother
  have hcodes : "NO_CALLSIGN" = "NO_AIRLINE_" := by rw [← hcode, ← hotherCode]; exact hsame
  exact absurd hcodes (by decide)

end Utterance

end Phraseology
