import Phraseology.Proofs.Command.Ending
import Phraseology.Proofs.Frame.CommandOrder
import Phraseology.Proofs.Frame.Spans

/-!
# What makes a command legal

A command has a value if the first of its rule's tags that occurs has words in its first span,
and if the rest of the command names a direction where one is needed (`CommandRule.HasValue`).
It is legal with a value, and without one if its rule allows for that and no tag of the rule
occurs, or the first that does has an empty span (`CommandRule.LacksValue`).

There is a third case: a turn to a heading with the heading but without a direction.
`ofRule` is computed in each of the three (`ofRule_of_hasValue`, `ofRule_of_lacksValue`,
`ofRule_of_undirected`), and a repaired text is in one of them (`exists_case`).  From this
`wellFormed_of_read` says which commands are legal and what a command has that is.  Only in the
first case is there a value that may have no end, and where it has none, neither has the reading
(`not_forall_wellFormed`).
-/

namespace Phraseology

/-! ## Where a value is spoken -/

namespace CommandRule

/-- Whether a tag is the first of a rule's that occurs among some words. -/
def FirstTag (rule : CommandRule) (words : List String) (tag : ValueTag) : Prop :=
  ∃ earlier later, rule.values = earlier ++ tag :: later ∧
    (∀ other ∈ earlier, Tag.opener other.tag ∉ words) ∧ Tag.opener tag.tag ∈ words

/-- Whether a value is spoken, and a direction if one is needed. -/
def HasValue (rule : CommandRule) (words : List String) : Prop :=
  ∃ tag before body after, rule.FirstTag words tag ∧
    FirstSpan tag.tag words before body after ∧ body ≠ [] ∧
    (rule.type = "turn_heading" → HasContent "direction" (before ++ after))

/-- Whether a value is missing, or a tag without words stands for it. -/
def LacksValue (rule : CommandRule) (words : List String) : Prop :=
  (∀ tag ∈ rule.values, Tag.opener tag.tag ∉ words) ∨
    ∃ tag before after, rule.FirstTag words tag ∧ FirstSpan tag.tag words before [] after

/-- Whether a value is spoken, but not the direction that is needed. -/
def Undirected (rule : CommandRule) (words : List String) : Prop :=
  ∃ tag before body after, rule.FirstTag words tag ∧
    FirstSpan tag.tag words before body after ∧ body ≠ [] ∧ rule.type = "turn_heading" ∧
    TagClosed "direction" (before ++ after) ∧ ¬ HasContent "direction" (before ++ after)

end CommandRule

/-- What is certain of a command that is read by a rule. -/
structure Command.WellFormed (rule : CommandRule) (words : List String) (command : Command) :
    Prop where
  type : command.type = rule.type
  value : command.value.isSome ↔ rule.HasValue words
  legal : command.legal = true ↔ command.value.isSome ∨
    rule.LacksValue words ∧ (rule.valueOptional = true ∨ rule.withoutValue.isSome)
  illegal : command.legal = false → command.value = none ∧ command.metric = none
  metric : command.metric.isSome → command.value.isSome
  concept : command.hasConcept = true

variable {rule : CommandRule} {frame : Frame} {words : List String} {concept : String}

/-- A direction is needed to turn to a heading, and only there. -/
theorem CommandRule.turnToHeading_iff (hrule : rule ∈ CommandRule.all) :
    rule.modifier = .turnToHeading ↔ rule.type = "turn_heading" := by
  have hrules : ∀ rule ∈ CommandRule.all,
      rule.modifier = .turnToHeading ↔ rule.type = "turn_heading" := by decide
  exact hrules rule hrule

/-- One of a rule's tags occurs first, or none occurs. -/
theorem CommandRule.exists_firstTag (rule : CommandRule) (words : List String) :
    (∀ tag ∈ rule.values, Tag.opener tag.tag ∉ words) ∨
      ∃ tag, rule.FirstTag words tag := by
  cases hfind : rule.values.find? fun tag => decide (Tag.opener tag.tag ∈ words) with
  | none =>
      refine .inl fun tag htag => ?_
      simpa using List.find?_eq_none.mp hfind tag htag
  | some tag =>
      obtain ⟨hopens, earlier, later, hvalues, hnone⟩ := List.find?_eq_some_iff_append.mp hfind
      refine .inr ⟨tag, earlier, later, hvalues, fun other hother => ?_, by simpa using hopens⟩
      simpa using hnone other hother

/-- In words that close their tags a value is spoken, or it is missing, or a direction is. -/
theorem CommandRule.exists_case (hrule : rule ∈ CommandRule.all)
    (hcloses : Repair.Closes [] words) :
    rule.HasValue words ∨ rule.LacksValue words ∨ rule.Undirected words := by
  rcases rule.exists_firstTag words with hnone | ⟨tag, hfirst⟩
  · exact .inr (.inl (.inl hnone))
  · have ⟨earlier, later, hvalues, _, hopens⟩ := hfirst
    have htag : tag ∈ rule.values := by
      rw [hvalues]
      exact List.mem_append_right _ List.mem_cons_self
    obtain ⟨hname, hdirection⟩ := CommandRule.isName_of_mem_values hrule htag
    obtain ⟨before, body, after, hspan⟩ :=
      exists_firstSpan (tagClosed_of_closes hcloses hname) hopens
    by_cases hbody : body = []
    · subst hbody
      exact .inr (.inl (.inr ⟨tag, before, after, hfirst, hspan⟩))
    · by_cases hneeded : rule.type = "turn_heading" → HasContent "direction" (before ++ after)
      · exact .inl ⟨tag, before, body, after, hfirst, hspan, hbody, hneeded⟩
      · obtain ⟨htype, hmissing⟩ := Classical.not_imp.mp hneeded
        have hclosed := hspan.tagClosed_rest hcloses hname (by decide) hdirection
        refine .inr (.inr ⟨tag, before, body, after, hfirst, hspan, hbody, htype, hclosed, ?_⟩)
        exact hmissing

namespace Command

/-! ## Concepts -/

/-- Whether a concept starts otherwise than the name for none. -/
def StartsConcept (concept : String) : Prop :=
  concept.toList.head?.any (· != 'N') = true

instance : Decidable (StartsConcept concept) :=
  inferInstanceAs (Decidable (_ = true))

theorem StartsConcept.append (hstarts : StartsConcept concept) (more : String) :
    StartsConcept (concept ++ more) := by
  unfold StartsConcept at hstarts ⊢
  rw [String.toList_append]
  cases hchars : concept.toList with
  | nil => simp [hchars] at hstarts
  | cons c cs => simpa [hchars] using hstarts

theorem hasConcept_of_startsConcept {command : Command}
    (hstarts : StartsConcept command.concept) : command.hasConcept = true := by
  rw [hasConcept, bne_iff_ne]
  intro heq
  rw [heq] at hstarts
  exact absurd hstarts (by decide)

/-- The names in the rules start otherwise than the name for no concept. -/
theorem startsConcept_of_rule (hrule : rule ∈ CommandRule.all) :
    StartsConcept (Text.upper rule.type) ∧
      (∀ name ∈ rule.withoutValue, StartsConcept name) ∧
      (∀ name ∈ Modifier.names rule.modifier, StartsConcept name) ∧
      ∀ tag ∈ rule.values, ∀ name ∈ tag.concept, StartsConcept name := by
  have hrules : ∀ rule ∈ CommandRule.all, StartsConcept (Text.upper rule.type) ∧
      (∀ name ∈ rule.withoutValue, StartsConcept name) ∧
      (∀ name ∈ Modifier.names rule.modifier, StartsConcept name) ∧
      ∀ tag ∈ rule.values, ∀ name ∈ tag.concept, StartsConcept name := by decide
  exact hrules rule hrule

/-- A modified concept is a concept. -/
theorem startsConcept_modified {modifier : Modifier} {plain : String} {command : Frame}
    (hplain : StartsConcept plain)
    (hnames : ∀ name ∈ Modifier.names modifier, StartsConcept name)
    (hconcept : modifiedConcept? modifier plain command = some concept) :
    StartsConcept concept := by
  have hall : ∀ name ∈ plain :: Modifier.names modifier, StartsConcept name :=
    List.forall_mem_cons.mpr ⟨hplain, hnames⟩
  have hturn : StartsConcept "TURN_" := by decide
  rcases modifiedConcept?_cases hconcept with
    ⟨name, hname, suffix, -, rfl⟩ | ⟨direction, -, kind, -, rfl⟩ | rfl
  · exact (hall name hname).append suffix
  · exact (hturn.append direction).append kind
  · decide

theorem hasConcept_ofRule (hrule : rule ∈ CommandRule.all) {command : Command}
    (hread : ofRule rule frame = .ok command) : command.hasConcept = true := by
  obtain ⟨htype, hwithout, hnames, htags⟩ := startsConcept_of_rule hrule
  refine hasConcept_of_startsConcept ?_
  rcases ofRule_cases hread with ⟨left, span, rfl⟩ | ⟨tag, htag, span, left, -, hvalue⟩
  · unfold ofMissingValue
    cases hname : rule.withoutValue with
    | none => exact htype
    | some name => exact hwithout name hname
  · rcases ofValue_cases hvalue with ⟨concept, value, hconcept, -, rfl⟩ | ⟨-, rfl⟩
    · -- the name that a tag has for the concept goes first
      unfold withValue
      cases hname : tag.concept with
      | none => exact startsConcept_modified htype hnames hconcept
      | some name => exact htags tag htag name hname
    · exact htype

/-! ## Directions -/

theorem isSome_direction?_of_hasContent (hcontent : HasContent "direction" frame.words) :
    (direction? frame).isSome := by
  obtain ⟨before, body, after, hspan, hbody⟩ := hcontent
  obtain ⟨span, rest, hcut, hwords, -⟩ := hspan.exists_cutTag
  have hspoken : span.isEmptyTag = false := by
    rw [Frame.isEmptyTag_of_words hwords]
    simpa using hbody
  simp [direction?, hcut, hspoken]

theorem direction?_eq_none (hclosed : TagClosed "direction" frame.words)
    (hnone : ¬ HasContent "direction" frame.words) : direction? frame = none := by
  by_cases hopens : Tag.opener "direction" ∈ frame.words
  · obtain ⟨before, body, after, hspan⟩ := exists_firstSpan hclosed hopens
    obtain ⟨span, rest, hcut, hwords, -⟩ := hspan.exists_cutTag
    have hempty : body = [] := Classical.byContradiction fun hbody =>
      hnone ⟨before, body, after, hspan, hbody⟩
    have hsilent : span.isEmptyTag = true := by
      rw [Frame.isEmptyTag_of_words hwords, hempty]
      rfl
    simp [direction?, hcut, hsilent]
  · simp [direction?, Frame.cutTag_eq_none hopens]

/-! ## The three cases -/

/-- The first tag that occurs is found with its first span. -/
theorem findValue?_of_firstTag {tag : ValueTag} {before body after : List String}
    (hfirst : rule.FirstTag frame.words tag)
    (hspan : FirstSpan tag.tag frame.words before body after) :
    ∃ span left, findValue? frame rule.values = some (tag, span, left) ∧
      span.isEmptyTag = body.isEmpty ∧ left.words = before ++ after := by
  obtain ⟨earlier, later, hvalues, hnone, -⟩ := hfirst
  obtain ⟨span, left, hcut, hwords, hleft⟩ := hspan.exists_cutTag
  refine ⟨span, left, ?_, Frame.isEmptyTag_of_words hwords, hleft⟩
  rw [hvalues]
  refine findValue?_eq_some (fun other hother => ?_) hcut
  rw [Frame.cutTag_eq_none (hnone other hother)]

theorem ofRule_of_lacksValue (hlacks : rule.LacksValue frame.words) :
    ∃ left span, ofRule rule frame = .ok (ofMissingValue rule left span) := by
  rcases hlacks with hnone | ⟨tag, before, after, hfirst, hspan⟩
  · have hfind : findValue? frame rule.values = none := by
      refine findValue?_eq_none fun tag htag => ?_
      rw [Frame.cutTag_eq_none (hnone tag htag)]
    exact ⟨frame, none, by rw [ofRule, hfind]⟩
  · obtain ⟨span, left, hfind, hempty, -⟩ := findValue?_of_firstTag hfirst hspan
    refine ⟨left, some span, ?_⟩
    simp [ofRule, hfind, hempty]

/-- A command with words for its value is one with a value, if its concept can be modified. -/
theorem ofRule_of_spoken {tag : ValueTag} {before body after : List String}
    (hfirst : rule.FirstTag frame.words tag)
    (hspan : FirstSpan tag.tag frame.words before body after) (hbody : body ≠ []) :
    ∃ span left, ofRule rule frame = ofValue rule tag span left ∧
      left.words = before ++ after := by
  obtain ⟨span, left, hfind, hempty, hleft⟩ := findValue?_of_firstTag hfirst hspan
  refine ⟨span, left, ?_, hleft⟩
  have hspoken : span.isEmptyTag = false := by
    rw [hempty]
    simpa using hbody
  simp [ofRule, hfind, hspoken]

theorem ofRule_of_hasValue (hrule : rule ∈ CommandRule.all)
    (hvalue : rule.HasValue frame.words) {command : Command}
    (hread : ofRule rule frame = .ok command) :
    command.value.isSome ∧ command.legal = true := by
  obtain ⟨tag, before, body, after, hfirst, hspan, hbody, hneeded⟩ := hvalue
  obtain ⟨span, left, hcommand, hleft⟩ := ofRule_of_spoken hfirst hspan hbody
  have hmodified : (modifiedConcept? rule.modifier (Text.upper rule.type) left).isSome := by
    cases hmodifier : rule.modifier with
    | turnToHeading =>
        have htype := (CommandRule.turnToHeading_iff hrule).mp hmodifier
        have hdirection := isSome_direction?_of_hasContent (hleft ▸ hneeded htype)
        simpa [modifiedConcept?] using hdirection
    | _ => rfl
  rw [hcommand] at hread
  rcases ofValue_cases hread with ⟨concept, value, -, -, rfl⟩ | ⟨hnone, -⟩
  · exact ⟨rfl, rfl⟩
  · rw [hnone] at hmodified
    cases hmodified

theorem ofRule_of_undirected (hrule : rule ∈ CommandRule.all)
    (hundirected : rule.Undirected frame.words) :
    ∃ span left, ofRule rule frame = .ok (withoutDirection rule span left) := by
  obtain ⟨tag, before, body, after, hfirst, hspan, hbody, htype, hclosed, hnone⟩ := hundirected
  obtain ⟨span, left, hcommand, hleft⟩ := ofRule_of_spoken hfirst hspan hbody
  rw [← hleft] at hclosed hnone
  have hmodified : modifiedConcept? rule.modifier (Text.upper rule.type) left = none := by
    rw [(CommandRule.turnToHeading_iff hrule).mpr htype, modifiedConcept?,
      direction?_eq_none hclosed hnone]
    rfl
  exact ⟨span, left, by rw [hcommand, ofValue, hmodified]⟩

/-- A command in words that close their tags is as its rule says. -/
theorem wellFormed_ofRule (hrule : rule ∈ CommandRule.all)
    (hcloses : Repair.Closes [] frame.words) {command : Command}
    (hread : ofRule rule frame = .ok command) : WellFormed rule frame.words command := by
  -- these hold in each of the three cases, which need not exclude one another by themselves
  have hlacking : rule.LacksValue frame.words → command.value = none ∧ command.metric = none ∧
      (command.legal = true ↔ rule.valueOptional = true ∨ rule.withoutValue.isSome) := by
    intro hlacks
    obtain ⟨left, span, hmissing⟩ := ofRule_of_lacksValue hlacks
    obtain rfl := Except.ok.inj (hmissing.symm.trans hread)
    exact ⟨rfl, rfl, by simp [ofMissingValue]⟩
  have hspoken : rule.HasValue frame.words → command.value.isSome ∧ command.legal = true :=
    fun hvalue => ofRule_of_hasValue hrule hvalue hread
  have hsilent : command.value = none → ¬ rule.HasValue frame.words := by
    intro hvalue hhas
    have hsome := (hspoken hhas).1
    rw [hvalue] at hsome
    cases hsome
  have htype := type_ofRule hread
  have hconcept := hasConcept_ofRule hrule hread
  rcases CommandRule.exists_case hrule hcloses with hhas | hlacks | hundirected
  · obtain ⟨hvalue, hlegal⟩ := hspoken hhas
    exact
      { type := htype
        value := ⟨fun _ => hhas, fun _ => hvalue⟩
        legal := ⟨fun _ => .inl hvalue, fun _ => hlegal⟩
        illegal := by simp [hlegal]
        metric := fun _ => hvalue
        concept := hconcept }
  · obtain ⟨hvalue, hmetric, hlegal⟩ := hlacking hlacks
    exact
      { type := htype
        value := by simp [hvalue, hsilent hvalue]
        legal := by simp [hvalue, hlacks, hlegal]
        illegal := fun _ => ⟨hvalue, hmetric⟩
        metric := by simp [hmetric]
        concept := hconcept }
  · obtain ⟨span, left, hundirectedRead⟩ := ofRule_of_undirected hrule hundirected
    obtain rfl := Except.ok.inj (hundirectedRead.symm.trans hread)
    have hrefused : ¬ (rule.LacksValue frame.words ∧
        (rule.valueOptional = true ∨ rule.withoutValue.isSome)) := by
      rintro ⟨hlacks, hallowed⟩
      cases (hlacking hlacks).2.2.mpr hallowed
    exact
      { type := htype
        value := by simp [withoutDirection, hsilent rfl]
        legal := by simp [withoutDirection, hrefused]
        illegal := fun _ => ⟨rfl, rfl⟩
        metric := by simp [withoutDirection]
        concept := hconcept }

/-- In words that close their tags only a value that is spoken may have no end. -/
theorem hasValue_of_endless (hrule : rule ∈ CommandRule.all)
    (hcloses : Repair.Closes [] frame.words) (hendless : ofRule rule frame = .error .endless) :
    rule.HasValue frame.words := by
  rcases CommandRule.exists_case hrule hcloses with hhas | hlacks | hundirected
  · exact hhas
  · obtain ⟨left, span, hmissing⟩ := ofRule_of_lacksValue hlacks
    rw [hmissing] at hendless
    cases hendless
  · obtain ⟨span, left, hread⟩ := ofRule_of_undirected hrule hundirected
    rw [hread] at hendless
    cases hendless

/-- Without a rule for its type a command has no concept, and it is legal if it calls for no
action. -/
theorem ofFrame_of_unruled (hbounded : isUnbounded frame = false)
    (hunruled : ∀ rule ∈ CommandRule.all, rule.type ≠ typeOf frame) :
    ∃ legal, ofFrame frame = .ok (withoutConcept (typeOf frame) legal (some frame.shallow)) ∧
      (legal = true ↔ typeOf frame ∈ CommandRule.acknowledgements) := by
  have hfind : CommandRule.all.find? (·.type == typeOf frame) = none := by
    rw [List.find?_eq_none]
    exact fun rule hrule => by simpa using hunruled rule hrule
  have hkind : CommandKind.ofType (typeOf frame) =
      if CommandRule.acknowledgements.contains (typeOf frame) then .acknowledgement
      else .unknown := by
    rw [CommandKind.ofType, hfind]
  by_cases hknown : typeOf frame ∈ CommandRule.acknowledgements
  · rw [if_pos (by simpa using hknown)] at hkind
    exact ⟨true, ofFrame_of_acknowledgement hbounded hkind, iff_of_true rfl hknown⟩
  · rw [if_neg (by simpa using hknown)] at hkind
    exact ⟨false, ofFrame_of_unknown hbounded hkind, iff_of_false nofun hknown⟩

/-- **A command is as its rule says.**  What is read from a text, without insisting on tags at
its ends, gives a command if the loops end for the number in its value.  If its type has a rule,
the first of the rule's tags that occurs decides on its value, and in a turn to a heading a
direction in the rest does as well; it is legal if it has a value, or if the rule does without one
and none is spoken.  It has a concept, a metric only with a value, and neither of the two if it is
not legal.  If its type has no rule, it has no concept, no value and no metric, and is legal if it
calls for no action.  Where the loops have no end, which takes a value that is spoken, neither has
the reading. -/
theorem wellFormed_of_read {text : String} {frame : Frame}
    (hread : Frame.read text false = .ok (some frame)) :
    (ReadsToEnd frame → ∃ command, ofFrame frame = .ok command ∧
      (∀ rule ∈ CommandRule.all, rule.type = typeOf frame →
        WellFormed rule frame.words command) ∧
      ((∀ rule ∈ CommandRule.all, rule.type ≠ typeOf frame) →
        command.value = none ∧ command.metric = none ∧ command.concept = noConceptName ∧
          (command.legal = true ↔ typeOf frame ∈ CommandRule.acknowledgements))) ∧
    (¬ ReadsToEnd frame → ofFrame frame = .error .endless ∧
      ∃ rule ∈ CommandRule.all, rule.type = typeOf frame ∧ rule.HasValue frame.words) := by
  obtain ⟨-, -, hstrict⟩ := Frame.exists_run_of_read hread
  have hcloses := Frame.closes_of_read hread
  have hbounded : isUnbounded frame = false := by
    rw [isUnbounded, hstrict, Bool.false_and]
  have hends := readIff_ofFrame hbounded
  by_cases hruled : ∃ rule ∈ CommandRule.all, rule.type = typeOf frame
  · obtain ⟨rule, hrule, htype⟩ := hruled
    have hkind := CommandKind.ofType_of_mem_all hrule
    rw [htype] at hkind
    have hruleRead := ofFrame_of_ruled hbounded hkind
    refine ⟨fun hto => ?_, fun hnot => ?_⟩
    · obtain ⟨command, hcommand⟩ := hends.read hto
      refine ⟨command, hcommand, fun other hother hsame => ?_,
        fun hnone => absurd htype (hnone rule hrule)⟩
      have hotherKind := CommandKind.ofType_of_mem_all hother
      rw [hsame, hkind] at hotherKind
      obtain rfl := CommandKind.ruled.inj hotherKind
      exact wellFormed_ofRule hrule hcloses (hruleRead.symm.trans hcommand)
    · have hendless := hends.endless hnot
      exact ⟨hendless, rule, hrule, htype,
        hasValue_of_endless hrule hcloses (hruleRead.symm.trans hendless)⟩
  · have hunruled : ∀ rule ∈ CommandRule.all, rule.type ≠ typeOf frame :=
      fun rule hrule htype => hruled ⟨rule, hrule, htype⟩
    obtain ⟨legal, hcommand, hlegal⟩ := ofFrame_of_unruled hbounded hunruled
    refine ⟨fun _ => ⟨_, hcommand, fun rule hrule htype => absurd htype (hunruled rule hrule),
      fun _ => ⟨rfl, rfl, rfl, hlegal⟩⟩, fun hnot => ?_⟩
    rw [hends.endless hnot] at hcommand
    cases hcommand

/-- A turn whose heading stands inside its direction. -/
def nestedTurn : String :=
  "<command=\"turn_heading\"> <direction> left <degree_absolute> double two zero"

/-- The words of this turn once its tags are closed. -/
def nestedTurnWords : List String :=
  ["<command=\"turn_heading\">", "<direction>", "left", "<degree_absolute>", "double", "two",
    "zero", "</degree_absolute>", "</direction>", "</command>"]

theorem wellFormed_nestedTurn :
    ∃ frame command, Frame.read nestedTurn false = .ok (some frame) ∧
      ofFrame frame = .ok command ∧ command.value.isSome ∧ command.legal = true := by
  have hnormal : Frame.normalWords nestedTurn = nestedTurnWords.take 7 := by decide
  have hread : Frame.read nestedTurn false =
      .ok (some { tokens := nestedTurnWords.map Token.plain, strict := false,
                  unmatchedClosings := [] }) := by
    unfold Frame.read
    rw [hnormal]
    rfl
  obtain ⟨command, hcommand, hruled, -⟩ := (wellFormed_of_read hread).1 (by decide)
  obtain ⟨rule, hrule, htype, hvalues⟩ : ∃ rule ∈ CommandRule.all,
      rule.type = "turn_heading" ∧ rule.values = [{ tag := "degree_absolute" }] := by decide
  have hwell := hruled rule hrule htype
  have hfirst : rule.FirstTag nestedTurnWords { tag := "degree_absolute" } :=
    ⟨[], [], hvalues, by simp, by decide⟩
  have hspan : FirstSpan "degree_absolute" nestedTurnWords (nestedTurnWords.take 3)
      ["double", "two", "zero"] ["</direction>", "</command>"] :=
    ⟨rfl, by decide, by decide⟩
  have hdirection : HasContent "direction"
      (nestedTurnWords.take 3 ++ ["</direction>", "</command>"]) :=
    ⟨["<command=\"turn_heading\">"], ["left"], ["</command>"],
      ⟨rfl, by decide, by decide⟩, by simp⟩
  have hvalue : command.value.isSome :=
    hwell.value.mpr ⟨_, _, _, _, hfirst, hspan, by simp, fun _ => hdirection⟩
  exact ⟨_, command, hread, hcommand, hvalue, hwell.legal.mpr (.inl hvalue)⟩

/-- Not every command is read: the level of this one has no end. -/
theorem not_forall_wellFormed :
    ¬ ∀ (text : String) (frame : Frame), Frame.read text false = .ok (some frame) →
      ∀ rule ∈ CommandRule.all, rule.type = typeOf frame →
        ∃ command, ofFrame frame = .ok command ∧ WellFormed rule frame.words command := by
  intro hall
  obtain ⟨rule, hrule, htype⟩ : ∃ rule ∈ CommandRule.all, rule.type = "descend" := by decide
  obtain ⟨command, hcommand, -⟩ := hall _ _ read_stutteredDescent rule hrule htype
  rw [ofFrame_stutteredFrame] at hcommand
  cases hcommand

end Command

end Phraseology
