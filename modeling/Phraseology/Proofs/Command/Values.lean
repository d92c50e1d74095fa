import Phraseology.Proofs.Command.Interpretation
import Phraseology.Proofs.Decimal.ScoreText
import Phraseology.Proofs.Frame.Content
import Phraseology.Proofs.Spoken.Silence
import Phraseology.Proofs.Text.UpperWords

/-!
# Empty values

Each way to write a value passes over words that it does not know.  So a span can have words
and still give no value: `flight level uh` is no flight level.  What is written is empty exactly
if there are only such words (`eq_empty_iff_of_valueText?`), and otherwise a word.

A command is not refused for this.  Its concept and its metric are words in any case, and its
value is what is written for the span of one of its rule's tags (`Written`, `written_of_ofFrame`).
-/

namespace Phraseology

variable {words : List String} {kind : ValueKind} {text : String}

/-- Whether nothing is written for some words as a value. -/
def ValueKind.SaysNothing (kind : ValueKind) (words : List String) : Prop :=
  match kind with
  | .number => ∀ word ∈ words, Spoken.isSilent word = true
  | .waypoint => Spoken.NamesNoWaypoint words
  | .runway => ∀ word ∈ words, Spoken.isSilentForRunway word = true
  | .contact => words = []
  | .frequency => ∀ word ∈ words, Spoken.isSilent word = true

/-! ## What is written -/

namespace Spoken

theorem isBlank_of_isWritten {c : Char} (hwritten : IsWritten c) : Text.isBlank c = false :=
  Decimal.not_isBlank_of_isNumeral (isNumeral_of_isWritten hwritten)

theorem isSolid_of_number? (hnumber : number? words = some text) : Text.IsSolid text := by
  obtain ⟨-, rfl⟩ := number?_eq_some_iff.mp hnumber
  intro c hc
  rw [passText, String.toList_ofList] at hc
  exact isBlank_of_isWritten (isWritten_of_mem_passChars hc)

theorem isSolid_of_frequency? (hfrequency : frequency? words = some text) : Text.IsSolid text := by
  obtain ⟨-, rfl⟩ := frequency?_eq_some_iff.mp hfrequency
  have hnumber : ∀ c ∈ passChars words, Text.isBlank c = false := fun c hc =>
    isBlank_of_isWritten (isWritten_of_mem_passChars hc)
  intro c hc
  rw [String.toList_ofList] at hc
  unfold withPoint at hc
  split at hc
  · rw [List.mem_append, List.mem_cons] at hc
    rcases hc with hc | rfl | hc
    · exact hnumber c (List.mem_of_mem_take hc)
    · decide
    · exact hnumber c (List.mem_of_mem_drop hc)
  · exact hnumber c hc

theorem isSolid_runway (words : List String) : Text.IsSolid (runway words) := by
  have hsides : ∀ entry ∈ runwaySides, Text.isBlank entry.2 = false := by decide
  intro c hc
  rw [runway, String.toList_ofList] at hc
  obtain ⟨word, -, hwritten⟩ := List.mem_filterMap.mp hc
  rcases Option.or_eq_some_iff.mp hwritten with hsymbol | ⟨-, hside⟩
  · exact isBlank_of_isWritten (isWritten_of_symbol? hsymbol)
  · exact hsides (word, c) (mem_of_lookup hside)

theorem isSolid_of_waypoint? (hwaypoint : waypoint? words = some text) : Text.IsSolid text := by
  have hfixes : ∀ entry ∈ namedFixes, Text.IsSolid entry.2 := by decide
  have hname : ∀ words, Text.IsSolid (fixName words).1 := by
    intro words
    cases words with
    | nil => decide
    | cons first rest =>
        simp only [fixName]
        split_ifs
        · exact show Text.IsSolid "" by decide
        · exact show Text.IsSolid "LMA" by decide
        · exact show Text.IsSolid "DL" by decide
        · split
          · next name hlookup => exact hfixes (first, name) (mem_of_lookup hlookup)
          · exact show Text.IsSolid "" by decide
  obtain ⟨number, hnumber, rfl⟩ := Option.map_eq_some_iff.mp hwaypoint
  exact (hname _).append (isSolid_of_number? hnumber)

end Spoken

namespace Command

theorem stripLeadingZeros_eq_empty_iff {number : String} :
    stripLeadingZeros number = "" ↔ number = "" := by
  unfold stripLeadingZeros
  simp only
  split
  · exact Iff.rfl
  · next hdigits =>
      have hnonempty : number ≠ "" := by
        rintro rfl
        simp at hdigits
      refine iff_of_false ?_ hnonempty
      split
      · decide
      · next hstripped =>
          rw [String.ofList_eq_empty_iff]
          exact hstripped

theorem isSolid_stripLeadingZeros {number : String} (hnumber : Text.IsSolid number) :
    Text.IsSolid (stripLeadingZeros number) := by
  unfold stripLeadingZeros
  simp only
  split
  · exact hnumber
  · split
    · decide
    · intro c hc
      rw [String.toList_ofList] at hc
      exact hnumber c (List.dropWhile_sublist _ |>.subset hc)

theorem isWord_upperName (hnonempty : words ≠ [])
    (hwords : ∀ word ∈ words, Text.IsWord word) :
    Text.IsWord (upperName words) :=
  (Text.isWord_intercalate (by decide) hnonempty hwords).upper

theorem isSolid_of_valueText? (hvalue : valueText? kind words = some text)
    (hwords : ∀ word ∈ words, Text.IsWord word) : Text.IsSolid text := by
  cases kind with
  | number =>
      obtain ⟨number, hnumber, rfl⟩ := Option.map_eq_some_iff.mp hvalue
      exact isSolid_stripLeadingZeros (Spoken.isSolid_of_number? hnumber)
  | waypoint => exact Spoken.isSolid_of_waypoint? hvalue
  | runway =>
      obtain rfl := Option.some.inj hvalue
      exact Spoken.isSolid_runway words
  | contact =>
      obtain rfl := Option.some.inj hvalue
      cases words with
      | nil => decide
      | cons first rest => exact (isWord_upperName (List.cons_ne_nil _ _) hwords).solid
  | frequency => exact Spoken.isSolid_of_frequency? hvalue

/-- Nothing is written for a value exactly if all words of it are passed over. -/
theorem eq_empty_iff_of_valueText? (hvalue : valueText? kind words = some text)
    (hwords : ∀ word ∈ words, Text.IsWord word) : text = "" ↔ kind.SaysNothing words := by
  unfold ValueKind.SaysNothing
  cases kind with
  | number =>
      obtain ⟨number, hnumber, rfl⟩ := Option.map_eq_some_iff.mp hvalue
      exact stripLeadingZeros_eq_empty_iff.trans (Spoken.eq_empty_iff_of_number? hnumber)
  | waypoint => exact Spoken.eq_empty_iff_of_waypoint? hvalue
  | runway =>
      obtain rfl := Option.some.inj hvalue
      exact Spoken.runway_eq_empty_iff
  | contact =>
      obtain rfl := Option.some.inj hvalue
      cases words with
      | nil => exact iff_of_true (by decide) rfl
      | cons first rest =>
          have hname := isWord_upperName (List.cons_ne_nil _ _) hwords
          exact iff_of_false (Text.isWord_iff.mp hname).1 (List.cons_ne_nil _ _)
  | frequency => exact Spoken.eq_empty_iff_of_frequency? hvalue

end Command

/-! ## Concepts -/

/-- The texts in a rule have no blank characters, and its names are words. -/
structure CommandRule.Spelled (rule : CommandRule) : Prop where
  type : Text.IsWord (Text.upper rule.type)
  withoutValue : ∀ name ∈ rule.withoutValue, Text.IsWord name
  names : ∀ name ∈ rule.modifier.names, Text.IsWord name
  suffixes : ∀ suffix ∈ rule.modifier.suffixes, Text.IsSolid suffix
  concepts : ∀ tag ∈ rule.values, ∀ name ∈ tag.concept, Text.IsWord name
  metrics : ∀ tag ∈ rule.values, ∀ name ∈ tag.metric, Text.IsWord name

theorem CommandRule.spelled {rule : CommandRule} (hrule : rule ∈ CommandRule.all) :
    rule.Spelled := by
  have hrules : ∀ rule ∈ CommandRule.all, Text.IsWord (Text.upper rule.type) ∧
      (∀ name ∈ rule.withoutValue, Text.IsWord name) ∧
      (∀ name ∈ rule.modifier.names, Text.IsWord name) ∧
      (∀ suffix ∈ rule.modifier.suffixes, Text.IsSolid suffix) ∧
      (∀ tag ∈ rule.values, ∀ name ∈ tag.concept, Text.IsWord name) ∧
      ∀ tag ∈ rule.values, ∀ name ∈ tag.metric, Text.IsWord name := by decide +kernel
  obtain ⟨htype, hwithout, hnames, hsuffixes, hconcepts, hmetrics⟩ := hrules rule hrule
  exact ⟨htype, hwithout, hnames, hsuffixes, hconcepts, hmetrics⟩

namespace Command

variable {frame : Frame} {rule : CommandRule} {modifier : Modifier} {plain concept : String}

theorem isWord_direction (hfilled : frame.Filled) {direction : String}
    (hdirection : direction? frame = some direction) : Text.IsWord direction := by
  obtain ⟨span, hspan, rfl⟩ := Option.map_eq_some_iff.mp hdirection
  obtain ⟨hcut, hspoken⟩ := Option.filter_eq_some_iff.mp hspan
  have hspan := (hfilled.cutSpan _ _).1 span hcut
  exact isWord_upperName (Frame.contentWords_ne_nil (by simpa using hspoken)) hspan.isWord

/-- A modified concept is a word. -/
theorem isWord_modifiedConcept (hfilled : frame.Filled) (hplain : Text.IsWord plain)
    (hnames : ∀ name ∈ modifier.names, Text.IsWord name)
    (hsuffixes : ∀ suffix ∈ modifier.suffixes, Text.IsSolid suffix)
    (hconcept : modifiedConcept? modifier plain frame = some concept) :
    Text.IsWord concept := by
  have hallNames : ∀ name ∈ plain :: modifier.names, Text.IsWord name :=
    List.forall_mem_cons.mpr ⟨hplain, hnames⟩
  have hallSuffixes : ∀ suffix ∈ "" :: modifier.suffixes, Text.IsSolid suffix :=
    List.forall_mem_cons.mpr ⟨by decide, hsuffixes⟩
  have hturn : Text.IsWord "TURN_" := by decide
  have hkinds : ∀ kind ∈ ["_BY", "_HEADING"], Text.IsSolid kind := by decide
  rcases modifiedConcept?_cases hconcept with
    ⟨name, hname, suffix, hsuffix, rfl⟩ | ⟨direction, hdirection, kind, hkind, rfl⟩ | rfl
  · exact (hallNames name hname).append (hallSuffixes suffix hsuffix)
  · have hspoken := isWord_direction hfilled hdirection
    exact (hturn.append hspoken.solid).append (hkinds kind hkind)
  · decide

/-! ## What a command gives to its record -/

/-- The texts of a command: its concept and its metric are words, and its value is what is
written for the span of one of the tags of the rules. -/
structure Written (command : Command) : Prop where
  concept : Text.IsWord command.concept
  metric : ∀ metric ∈ command.metric, Text.IsWord metric
  value : ∀ value ∈ command.value, ∃ tag ∈ CommandRule.all.flatMap (·.values), ∃ span,
    command.valueFrame = some span ∧ span.firstWord? = some (Tag.opener tag.tag) ∧
      valueText? tag.kind span.contentWords = some value ∧ Text.IsSolid value ∧
      (value = "" ↔ tag.kind.SaysNothing span.contentWords)

theorem written_withoutConcept (type : String) (legal : Bool) (conceptFrame : Option Frame) :
    (withoutConcept type legal conceptFrame).Written where
  concept := show Text.IsWord noConceptName by decide
  metric := by simp [withoutConcept]
  value := by simp [withoutConcept]

theorem written_ofMissingValue (hrule : rule ∈ CommandRule.all) (left : Frame)
    (span : Option Frame) : (ofMissingValue rule left span).Written where
  concept := by
    unfold ofMissingValue
    cases hname : rule.withoutValue with
    | none => exact (CommandRule.spelled hrule).type
    | some name => exact (CommandRule.spelled hrule).withoutValue name hname
  metric := by simp [ofMissingValue]
  value := by simp [ofMissingValue]

theorem written_of_ofValue (hrule : rule ∈ CommandRule.all) {tag : ValueTag}
    (htag : tag ∈ rule.values) {span left : Frame} (hspan : span.Filled) (hleft : left.Filled)
    (hfirst : span.firstWord? = some (Tag.opener tag.tag)) {command : Command}
    (hread : ofValue rule tag span left = .ok command) : command.Written := by
  have hspelled := CommandRule.spelled hrule
  rcases ofValue_cases hread with ⟨concept, value, hconcept, hvalue, rfl⟩ | ⟨-, rfl⟩
  · refine ⟨?_, hspelled.metrics tag htag, ?_⟩
    · unfold withValue
      cases hname : tag.concept with
      | none =>
          exact isWord_modifiedConcept hleft hspelled.type hspelled.names hspelled.suffixes
            hconcept
      | some name => exact hspelled.concepts tag htag name hname
    · rintro _ ⟨⟩
      refine ⟨tag, List.mem_flatMap.mpr ⟨rule, hrule, htag⟩, span, rfl, hfirst, hvalue, ?_, ?_⟩
      · exact isSolid_of_valueText? hvalue hspan.isWord
      · exact eq_empty_iff_of_valueText? hvalue hspan.isWord
  · exact ⟨hspelled.type, by simp [withoutDirection], by simp [withoutDirection]⟩

/-- A command that is read from a frame with words in it is written. -/
theorem written_of_ofFrame (hfilled : frame.Filled) {command : Command}
    (hread : ofFrame frame = .ok command) : command.Written := by
  rcases ofFrame_cases hread with ⟨rule, hrule, hruleRead⟩ | ⟨legal, rfl⟩
  · rcases ofRule_cases hruleRead with ⟨left, span, rfl⟩ | ⟨tag, htag, span, left, hcut, hvalue⟩
    · exact written_ofMissingValue hrule left span
    · obtain ⟨hspan, hleft⟩ := hfilled.cutSpan (· == "<" ++ tag.tag ++ ">") fun _ word =>
        word == Tag.closingTag tag.tag
      rw [← Frame.cutTag, hcut] at hspan hleft
      exact written_of_ofValue hrule htag (hspan span rfl) hleft (Frame.firstWord?_of_cutTag hcut)
        hvalue
  · exact written_withoutConcept ..

end Command

end Phraseology
