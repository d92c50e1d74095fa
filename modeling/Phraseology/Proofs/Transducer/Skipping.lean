import Phraseology.Proofs.Search.Callsign
import Phraseology.Transducer.Basic

/-!
# Skipping leaves callsigns alone

The policy of a search looks a word up in three sets, which a transducer makes from its
settings and from the airline table.  So what a stride passes over is no airline, in any
state whatsoever (`ne_airline_of_takes`).  In a state that is reached the flag says whether a
callsign is open, and there only what `Settings.PassesInCallsign` names is passed over.
`skips_respect_callsign` puts the two together.
-/

namespace Phraseology

/-- Which words may be passed over in a callsign: noise, what stands between underscores, and
what is listed. -/
def Settings.PassesInCallsign (settings : Settings) (observation : String) : Prop :=
  observation ∈ settings.noiseMarkers.map Text.lower ∨
    (∃ inside, observation = "_" ++ inside ++ "_") ∨
    observation ∈ settings.callsignWhitelist.map Text.lower

namespace Transducer

variable {grammar : Grammar} {vocabulary : Vocabulary} {airlines : AirlineTable}
  {settings : Settings} {phase : Phase} {options : ConvertOptions} {sentence : List String}
  {state next : State}

theorem contains_lowerSet_iff {words : List String} {word : String} :
    (lowerSet words).contains word = true ↔ word ∈ words.map Text.lower := by
  rw [lowerSet, Std.TreeSet.contains_ofList, List.contains_iff_mem]

/-- The airlines of a transducer are the names of the table, but for the spelled letters. -/
theorem contains_airlines_iff {word : String} :
    (ofVocabulary grammar vocabulary airlines settings).airlines.contains word = true ↔
      ∃ name ∈ airlines.names, Alphabet.isLetter (Text.lower name) = false ∧
        Text.lower name = word := by
  simp only [ofVocabulary, Std.TreeSet.contains_ofList, List.contains_iff_mem, List.mem_filter,
    List.mem_map, Bool.not_eq_true']
  constructor
  · rintro ⟨⟨name, hname, rfl⟩, hletter⟩
    exact ⟨name, hname, hletter, rfl⟩
  · rintro ⟨name, hname, hletter, rfl⟩
    exact ⟨⟨name, hname, rfl⟩, hletter⟩

/-- No stride passes over an airline, unless its name spells a letter. -/
theorem ne_airline_of_takes
    (htakes : ((ofVocabulary grammar vocabulary airlines settings).task phase options
      sentence).Takes state .skip next) :
    ∃ heard, state.unread = heard :: next.unread ∧ ∀ name ∈ airlines.names,
      Alphabet.isLetter (Text.lower name) = false → heard.observation ≠ Text.lower name := by
  obtain ⟨heard, hunread, hairline, -⟩ := htakes.skipped
  refine ⟨heard, hunread, fun name hname hletter hheard => ?_⟩
  have hlisted : (ofVocabulary grammar vocabulary airlines settings).airlines.contains
      heard.observation = true :=
    contains_airlines_iff.mpr ⟨name, hname, hletter, hheard.symm⟩
  exact Bool.false_ne_true (hairline.symm.trans hlisted)

/-- Where the flag is set, strides pass over noise, marked words and listed ones. -/
theorem passesInCallsign_of_takes
    (htakes : ((ofVocabulary grammar vocabulary airlines settings).task phase options
      sentence).Takes state .skip next) (hinside : state.inCallsign = true) :
    ∃ heard, state.unread = heard :: next.unread ∧
      settings.PassesInCallsign heard.observation := by
  obtain ⟨heard, hunread, -, hpasses⟩ := htakes.skipped
  refine ⟨heard, hunread, ?_⟩
  rcases hpasses hinside with hnoise | hmarked | hlisted
  · exact .inl (contains_lowerSet_iff.mp hnoise)
  · exact .inr (.inl (SkipPolicy.isMarked_iff.mp hmarked))
  · exact .inr (.inr (contains_lowerSet_iff.mp hlisted))

/-- **Skipping respects the callsign.**  Let the tags of a grammar be plain, and in its runs
let closing arcs name the innermost open tag and no callsign be opened in another.  Then in
every state that is reached the flag says whether a callsign is open, and a word that is
skipped while one is open is noise, stands between underscores or is listed.  In any state of
any grammar, what is skipped is not the name of an airline, unless it spells a letter. -/
theorem skips_respect_callsign (grammar : Grammar) (vocabulary : Vocabulary)
    (airlines : AirlineTable) (settings : Settings) (phase : Phase) (options : ConvertOptions)
    (sentence : List String) :
    (grammar.PlainTags →
      ((ofVocabulary grammar vocabulary airlines settings).task phase options
        sentence).ClosesInnermost →
      ((ofVocabulary grammar vocabulary airlines settings).task phase options
        sentence).OpensCallsignsApart →
      ∀ state, ((ofVocabulary grammar vocabulary airlines settings).task phase options
          sentence).Reached state →
        (state.inCallsign = true ↔ "callsign" ∈ state.openTags) ∧
        ∀ next, ((ofVocabulary grammar vocabulary airlines settings).task phase options
            sentence).Takes state .skip next → "callsign" ∈ state.openTags →
          ∃ heard, state.unread = heard :: next.unread ∧
            settings.PassesInCallsign heard.observation) ∧
    ∀ state next, ((ofVocabulary grammar vocabulary airlines settings).task phase options
        sentence).Takes state .skip next →
      ∃ heard, state.unread = heard :: next.unread ∧ ∀ name ∈ airlines.names,
        Alphabet.isLetter (Text.lower name) = false → heard.observation ≠ Text.lower name := by
  refine ⟨fun hplain hinnermost hapart state hreached => ?_, fun state next htakes =>
    ne_airline_of_takes htakes⟩
  have hflag := (hreached.marksCallsign hplain hinnermost hapart).inCallsign_iff
  refine ⟨hflag, fun next htakes hopen => ?_⟩
  exact passesInCallsign_of_takes htakes (hflag.mpr hopen)

/-! ## A hesitation -/

/-- A grammar whose only sentence is a callsign. -/
def callsignGrammar : Grammar :=
  ((((Grammar.empty "callsign").addArc 0 1 (Arc.saying Tag.callsignOpen)).addArc 1 2
    (Arc.saying "one")).addArc 2 3 (Arc.saying Tag.callsignClose)).markTerminal 3

theorem arc_of_callsignGrammar (source target : Nat) (arc : Arc)
    (hleaves : (target, arc) ∈ callsignGrammar.transitions source) :
    (source = 0 ∧ target = 1 ∧ arc = Arc.saying Tag.callsignOpen) ∨
      (source = 1 ∧ target = 2 ∧ arc = Arc.saying "one") ∨
      (source = 2 ∧ target = 3 ∧ arc = Arc.saying Tag.callsignClose) := by
  have harc : (source, target, arc) ∈ [(0, 1, Arc.saying Tag.callsignOpen),
      (1, 2, Arc.saying "one"), (2, 3, Arc.saying Tag.callsignClose)] :=
    Grammar.mem_arcs.mpr hleaves
  simpa using harc

theorem plainTags_callsignGrammar : callsignGrammar.PlainTags := by
  have hcallsign : Tag.IsName "callsign" := by decide
  intro source target arc hleaves htag
  rcases arc_of_callsignGrammar source target arc hleaves with
    ⟨-, -, rfl⟩ | ⟨-, -, rfl⟩ | ⟨-, -, rfl⟩
  · exact .opening hcallsign
  · exact absurd htag (by decide)
  · exact .closing hcallsign

/-- A table with one airline. -/
def lufthansa : AirlineTable where
  entries := #[{ code := "DLH", name := "lufthansa" }]
  index := .ofList [("lufthansa", 0)]

/-- The search for this callsign in the words of a speaker who hesitates. -/
def hesitation : Task :=
  (ofVocabulary callsignGrammar (Vocabulary.ofGrammar callsignGrammar) lufthansa {}).task
    .skipping {} ["aeh", "one"]

theorem skips_respect_callsign_hesitation :
    ∃ state next heard, hesitation.Reached state ∧ hesitation.Takes state .skip next ∧
      state.inCallsign = true ∧ state.unread = heard :: next.unread ∧
      ({} : Settings).PassesInCallsign heard.observation ∧ heard.observation ≠ "lufthansa" := by
  have hopen : (Arc.saying Tag.callsignOpen).label = .opening Tag.callsignOpen "callsign" := by
    decide
  have hword : (Arc.saying "one").label = .word "one" := by decide
  have hclose : (Arc.saying Tag.callsignClose).label =
      .closing Tag.callsignClose "callsign" := by decide
  have hstacked : hesitation.grammar.Stacked _ :=
    Grammar.stacked_of_single arc_of_callsignGrammar hopen hword hclose
  have hapart : hesitation.OpensCallsignsApart := by
    intro state target arc name hreached hleaves hopens _
    rw [hreached.openTags_eq_of_stacked hstacked]
    rcases arc_of_callsignGrammar state.node target arc hleaves with
      ⟨hnode, -, -⟩ | ⟨-, -, rfl⟩ | ⟨-, -, rfl⟩
    · simp [hnode]
    · simp [hword] at hopens
    · simp [hclose] at hopens
  let opened := (State.initial hesitation.sentence).openTag 1 Tag.callsignOpen "callsign"
  have hopened : hesitation.Reached opened :=
    .move .initial (.openTag (List.mem_cons_self ..) hopen (by decide))
  have hskips : hesitation.Takes opened .skip
      (opened.skipWord 1 (Heard.ofToken "aeh") [Heard.ofToken "one"]) := .skip rfl
  obtain ⟨hreaches, hairlines⟩ := skips_respect_callsign callsignGrammar
    (Vocabulary.ofGrammar callsignGrammar) lufthansa {} .skipping {} ["aeh", "one"]
  obtain ⟨hflag, hpasses⟩ :=
    hreaches plainTags_callsignGrammar hstacked.closesInnermost hapart opened hopened
  have hinside : "callsign" ∈ opened.openTags := List.mem_cons_self ..
  obtain ⟨heard, hunread, hpassed⟩ := hpasses _ hskips hinside
  obtain ⟨other, hsame, hother⟩ := hairlines _ _ hskips
  obtain rfl : other = heard := (List.cons.inj (hsame.symm.trans hunread)).1
  have hname : other.observation ≠ Text.lower "lufthansa" :=
    hother "lufthansa" (List.mem_singleton_self _) (by decide)
  have hlower : Text.lower "lufthansa" = "lufthansa" := by decide
  rw [hlower] at hname
  exact ⟨opened, _, other, hopened, hskips, hflag.mpr hinside, hunread, hpassed, hname⟩

end Transducer

end Phraseology
