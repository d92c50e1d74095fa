import Mathlib.Tactic.SplitIfs
import Phraseology.Command.Basic
import Phraseology.Proofs.Tag.Opening

/-!
# Rules and values

Each type of command has one rule at most.  The value of a command is looked for under the tags
of its rule, one after the other: it is the first span of the first tag that occurs.

A frame gives a command unless it is unbounded where it must not be, or its value has no end, and
the kind of its type says which (`ofFrame_of_isUnbounded`, `ofFrame_cases`).  A command that is
read by a rule has the value of a span or lacks one (`ofRule_cases`, `ofValue_cases`).  Its concept
is put together from texts of the rule and a direction (`modifiedConcept?_cases`).
-/

namespace Phraseology

/-! ## Rules -/

/-- The rule for a type is one of that type. -/
theorem CommandKind.type_eq_of_ruled {type : String} {rule : CommandRule}
    (hkind : CommandKind.ofType type = .ruled rule) : rule.type = type := by
  unfold CommandKind.ofType at hkind
  split at hkind
  · next found hfind =>
      cases hkind
      exact eq_of_beq (List.find?_some (p := fun other : CommandRule => other.type == type) hfind)
  · split at hkind <;> cases hkind

theorem CommandKind.mem_all_of_ruled {type : String} {rule : CommandRule}
    (hkind : CommandKind.ofType type = .ruled rule) : rule ∈ CommandRule.all := by
  unfold CommandKind.ofType at hkind
  split at hkind
  · next found hfind =>
      cases hkind
      exact List.mem_of_find?_eq_some hfind
  · split at hkind <;> cases hkind

/-- The rules are for different types. -/
theorem CommandKind.ofType_of_mem_all {rule : CommandRule} (hrule : rule ∈ CommandRule.all) :
    CommandKind.ofType rule.type = .ruled rule := by
  have hrules : ∀ rule ∈ CommandRule.all, CommandKind.ofType rule.type = .ruled rule := by
    decide
  exact hrules rule hrule

/-- The tags of the rules have names of letters, none of them that of a direction. -/
theorem CommandRule.isName_of_mem_values {rule : CommandRule} (hrule : rule ∈ CommandRule.all)
    {tag : ValueTag} (htag : tag ∈ rule.values) :
    Tag.IsName tag.tag ∧ "direction" ≠ tag.tag := by
  have hrules : ∀ rule ∈ CommandRule.all, ∀ tag ∈ rule.values,
      Tag.IsName tag.tag ∧ "direction" ≠ tag.tag := by decide
  exact hrules rule hrule tag htag

/-! ## Where a value is found -/

namespace Command

variable {frame : Frame}

theorem findValue?_eq_none {tags : List ValueTag}
    (hnone : ∀ tag ∈ tags, (frame.cutTag tag.tag).1 = none) : findValue? frame tags = none := by
  induction tags with
  | nil => rfl
  | cons tag tags ih =>
      obtain ⟨htag, hnone⟩ := List.forall_mem_cons.mp hnone
      unfold findValue?
      split
      · next span left hcut =>
          rw [hcut] at htag
          cases htag
      · exact ih hnone

theorem findValue?_eq_some {earlier later : List ValueTag} {tag : ValueTag} {span left : Frame}
    (hnone : ∀ other ∈ earlier, (frame.cutTag other.tag).1 = none)
    (hcut : frame.cutTag tag.tag = (some span, left)) :
    findValue? frame (earlier ++ tag :: later) = some (tag, span, left) := by
  induction earlier with
  | nil => simp [findValue?, hcut]
  | cons other earlier ih =>
      obtain ⟨hother, hnone⟩ := List.forall_mem_cons.mp hnone
      rw [List.cons_append]
      unfold findValue?
      split
      · next found rest hfound =>
          rw [hfound] at hother
          cases hother
      · exact ih hnone

/-- What is found for a value is the first span of its tag. -/
theorem cutTag_of_findValue? {tags : List ValueTag} {tag : ValueTag} {span left : Frame}
    (hfind : findValue? frame tags = some (tag, span, left)) :
    tag ∈ tags ∧ frame.cutTag tag.tag = (some span, left) := by
  induction tags with
  | nil => simp [findValue?] at hfind
  | cons other tags ih =>
      unfold findValue? at hfind
      split at hfind
      · next found rest hcut =>
          cases hfind
          exact ⟨List.mem_cons_self, hcut⟩
      · exact (ih hfind).imp_left (List.mem_cons_of_mem other)

/-! ## What a command gives -/

/-- The type that the first word of a frame names; empty if it names none. -/
def typeOf (frame : Frame) : String :=
  (frame.firstWord?.bind Tag.commandType?).getD ""

/-- Whether a frame that is to be bounded by the tags of a command is not. -/
def isUnbounded (frame : Frame) : Bool :=
  frame.strict && !((frame.firstWord?.bind Tag.commandType?).isSome &&
    frame.lastWord? == some Tag.commandClose)

theorem ofFrame_of_isUnbounded (hunbounded : isUnbounded frame = true) :
    ofFrame frame = .error (.invalidSpan .command frame.text) :=
  if_pos hunbounded

theorem ofFrame_of_ruled (hbounded : isUnbounded frame = false) {rule : CommandRule}
    (hkind : CommandKind.ofType (typeOf frame) = .ruled rule) :
    ofFrame frame = ofRule rule frame := by
  unfold isUnbounded at hbounded
  unfold typeOf at hkind
  simp only [ofFrame, hbounded, hkind, Bool.false_eq_true, if_false]

theorem ofFrame_of_acknowledgement (hbounded : isUnbounded frame = false)
    (hkind : CommandKind.ofType (typeOf frame) = .acknowledgement) :
    ofFrame frame = .ok (withoutConcept (typeOf frame) true (some frame.shallow)) := by
  unfold isUnbounded at hbounded
  unfold typeOf at hkind ⊢
  simp only [ofFrame, hbounded, hkind, Bool.false_eq_true, if_false]

theorem ofFrame_of_unknown (hbounded : isUnbounded frame = false)
    (hkind : CommandKind.ofType (typeOf frame) = .unknown) :
    ofFrame frame = .ok (withoutConcept (typeOf frame) false (some frame.shallow)) := by
  unfold isUnbounded at hbounded
  unfold typeOf at hkind ⊢
  simp only [ofFrame, hbounded, hkind, Bool.false_eq_true, if_false]

/-- A command that is read has a rule or no concept. -/
theorem ofFrame_cases {command : Command} (hread : ofFrame frame = .ok command) :
    (∃ rule ∈ CommandRule.all, ofRule rule frame = .ok command) ∨
      ∃ legal, command = withoutConcept (typeOf frame) legal (some frame.shallow) := by
  cases hbounded : isUnbounded frame with
  | true =>
      rw [ofFrame_of_isUnbounded hbounded] at hread
      cases hread
  | false =>
      cases hkind : CommandKind.ofType (typeOf frame) with
      | ruled rule =>
          rw [ofFrame_of_ruled hbounded hkind] at hread
          exact .inl ⟨rule, CommandKind.mem_all_of_ruled hkind, hread⟩
      | acknowledgement =>
          rw [ofFrame_of_acknowledgement hbounded hkind] at hread
          exact .inr ⟨true, (Except.ok.inj hread).symm⟩
      | unknown =>
          rw [ofFrame_of_unknown hbounded hkind] at hread
          exact .inr ⟨false, (Except.ok.inj hread).symm⟩

variable {rule : CommandRule} {tag : ValueTag} {span left : Frame} {command : Command}

/-- A command with words for its value has this value, or it lacks a direction. -/
theorem ofValue_cases (hread : ofValue rule tag span left = .ok command) :
    (∃ concept value,
      modifiedConcept? rule.modifier (Text.upper rule.type) left = some concept ∧
        valueText? tag.kind span.contentWords = some value ∧
        command = withValue rule tag span left concept value) ∨
      modifiedConcept? rule.modifier (Text.upper rule.type) left = none ∧
        command = withoutDirection rule span left := by
  unfold ofValue at hread
  cases hconcept : modifiedConcept? rule.modifier (Text.upper rule.type) left with
  | none =>
      rw [hconcept] at hread
      exact .inr ⟨rfl, (Except.ok.inj hread).symm⟩
  | some concept =>
      rw [hconcept] at hread
      cases hvalue : valueText? tag.kind span.contentWords with
      | none =>
          rw [hvalue] at hread
          cases hread
      | some value =>
          rw [hvalue] at hread
          exact .inl ⟨concept, value, rfl, rfl, (Except.ok.inj hread).symm⟩

/-- A command lacks its value, or its value is that of the first span of one of its rule's
tags. -/
theorem ofRule_eq (rule : CommandRule) (frame : Frame) :
    (∃ left span, ofRule rule frame = .ok (ofMissingValue rule left span)) ∨
      ∃ tag ∈ rule.values, ∃ span left, frame.cutTag tag.tag = (some span, left) ∧
        ofRule rule frame = ofValue rule tag span left := by
  cases hfind : findValue? frame rule.values with
  | none => exact .inl ⟨frame, none, by rw [ofRule, hfind]⟩
  | some found =>
      obtain ⟨tag, span, left⟩ := found
      obtain ⟨htag, hcut⟩ := cutTag_of_findValue? hfind
      cases hempty : span.isEmptyTag with
      | true => exact .inl ⟨left, some span, by simp [ofRule, hfind, hempty]⟩
      | false => exact .inr ⟨tag, htag, span, left, hcut, by simp [ofRule, hfind, hempty]⟩

/-- What a command is that is read by a rule. -/
theorem ofRule_cases (hread : ofRule rule frame = .ok command) :
    (∃ left span, command = ofMissingValue rule left span) ∨
      ∃ tag ∈ rule.values, ∃ span left, frame.cutTag tag.tag = (some span, left) ∧
        ofValue rule tag span left = .ok command := by
  rcases ofRule_eq rule frame with ⟨left, span, hmissing⟩ | ⟨tag, htag, span, left, hcut, hvalue⟩
  · rw [hmissing] at hread
    exact .inl ⟨left, span, (Except.ok.inj hread).symm⟩
  · exact .inr ⟨tag, htag, span, left, hcut, hvalue ▸ hread⟩

theorem type_ofRule (hread : ofRule rule frame = .ok command) : command.type = rule.type := by
  rcases ofRule_cases hread with ⟨left, span, rfl⟩ | ⟨tag, -, span, left, -, hvalue⟩
  · rfl
  · obtain ⟨concept, value, -, -, rfl⟩ | ⟨-, rfl⟩ := ofValue_cases hvalue <;> rfl

end Command

/-! ## Concepts -/

namespace Modifier

/-- The names that a modifier gives to concepts. -/
def names : Modifier → List String
  | .renamed name _ => [name]
  | .override name _ => [name]
  | _ => []

/-- The suffixes that a modifier gives to concepts. -/
def suffixes : Modifier → List String
  | .limit rule => [rule.directionSuffix, rule.boundarySuffix]
  | .renamed _ rule => [rule.directionSuffix, rule.boundarySuffix]
  | .override _ rule => [rule.directionSuffix, rule.boundarySuffix]
  | _ => []

end Modifier

namespace LimitRule

variable {rule : LimitRule} {command : Frame} {suffix : String}

theorem mem_of_suffixAmong? {directionTerms boundaryTerms : List String}
    (hsuffix : rule.suffixAmong? directionTerms boundaryTerms command = some suffix) :
    suffix ∈ [rule.directionSuffix, rule.boundarySuffix] := by
  unfold suffixAmong? at hsuffix
  simp only at hsuffix
  split_ifs at hsuffix <;> simp [← Option.some.inj hsuffix]

theorem mem_of_suffix? (hsuffix : rule.suffix? command = some suffix) :
    suffix ∈ [rule.directionSuffix, rule.boundarySuffix] := by
  unfold suffix? at hsuffix
  split at hsuffix
  · exact mem_of_suffixAmong? hsuffix
  · exact mem_of_suffixAmong? hsuffix

end LimitRule

/-- A modified concept is a name with a suffix, or a turn, in the direction that is spoken. -/
theorem Command.modifiedConcept?_cases {modifier : Modifier} {plain concept : String}
    {frame : Frame} (hconcept : modifiedConcept? modifier plain frame = some concept) :
    (∃ name ∈ plain :: modifier.names, ∃ suffix ∈ "" :: modifier.suffixes,
        concept = name ++ suffix) ∨
      (∃ direction ∈ direction? frame, ∃ kind ∈ ["_BY", "_HEADING"],
        concept = "TURN_" ++ direction ++ kind) ∨
      concept = "TURN_BY" := by
  have hlimit : ∀ rule : LimitRule,
      (rule.suffix? frame).getD "" ∈ ["", rule.directionSuffix, rule.boundarySuffix] := by
    intro rule
    cases hsuffix : rule.suffix? frame with
    | none => exact List.mem_cons_self
    | some suffix => exact List.mem_cons_of_mem _ (LimitRule.mem_of_suffix? hsuffix)
  have hplain : ∀ modifier : Modifier, ∃ name ∈ plain :: modifier.names,
      ∃ suffix ∈ "" :: modifier.suffixes, plain = name ++ suffix := fun modifier =>
    ⟨plain, List.mem_cons_self, "", List.mem_cons_self, by simp⟩
  cases modifier with
  | plain =>
      obtain rfl := Option.some.inj hconcept
      exact .inl (hplain .plain)
  | limit rule =>
      obtain rfl := Option.some.inj hconcept
      exact .inl ⟨plain, List.mem_cons_self, _, hlimit rule, rfl⟩
  | renamed name rule =>
      obtain rfl := Option.some.inj hconcept
      exact .inl ⟨name, by simp [Modifier.names], _, hlimit rule, rfl⟩
  | override name rule =>
      obtain rfl := Option.some.inj hconcept
      split
      · next suffix hsuffix =>
          have hmem := List.mem_cons_of_mem "" (LimitRule.mem_of_suffix? hsuffix)
          exact .inl ⟨name, by simp [Modifier.names], suffix, hmem, rfl⟩
      · exact .inl (hplain (.override name rule))
  | turnBy =>
      obtain rfl := Option.some.inj hconcept
      split
      · next direction hdirection =>
          exact .inr (.inl ⟨direction, hdirection, "_BY", by simp, rfl⟩)
      · exact .inr (.inr rfl)
  | turnToHeading =>
      obtain ⟨direction, hdirection, rfl⟩ := Option.map_eq_some_iff.mp hconcept
      exact .inr (.inl ⟨direction, hdirection, "_HEADING", by simp, rfl⟩)

end Phraseology
