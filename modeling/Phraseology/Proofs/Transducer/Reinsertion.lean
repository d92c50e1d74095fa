import Phraseology.Proofs.Tag.Replay
import Phraseology.Transducer.Reinsertion

/-!
# Nothing spoken is lost when words are put back

`mergeWords` goes through the tokens of a parse and merges the spoken words into them.
Two things are kept all the time.

* The words that are merged already, in the open spans and behind them, and the words
  that are left are the spoken words in their order (`spokenIn`).
* Each open span explains its part of the parse (`Explains`): the parse is what is left
  when unused words are deleted and the others are put into lower case.

Moving words out of a span keeps both, since a word that moves stands in front of the
first word or tag that the span explains, and so is not used there
(`Explains.dropWhile`).  `mergeWords_spec` puts this together for a sentence that is
well nested in the tag of a sentence.
-/

namespace Phraseology

variable {text parse more later words : List String} {token word : String}

/-! ## What a parse explains -/

/-- A parse is a text without the words that it does not use, and with its other words
in lower case.  All tags of the text are in the parse. -/
inductive Explains : List String → List String → Prop
  | nil : Explains [] []
  | tag {token : String} {text parse : List String} (tagged : (Tag.tagName? token).isSome)
      (rest : Explains text parse) : Explains (token :: text) (token :: parse)
  | word {word : String} {text parse : List String} (untagged : Tag.tagName? word = none)
      (lowered : Tag.tagName? (Text.lower word) = none) (rest : Explains text parse) :
      Explains (word :: text) (Text.lower word :: parse)
  | unused {word : String} {text parse : List String} (untagged : Tag.tagName? word = none)
      (rest : Explains text parse) : Explains (word :: text) parse

theorem Explains.append {text' parse' : List String} (hfirst : Explains text parse)
    (hsecond : Explains text' parse') : Explains (text ++ text') (parse ++ parse') := by
  induction hfirst with
  | nil => exact hsecond
  | tag htag _ ih => exact .tag htag ih
  | word hword hlower _ ih => exact .word hword hlower ih
  | unused hword _ ih => exact .unused hword ih

theorem Explains.of_unused (hwords : ∀ word ∈ words, Tag.tagName? word = none) :
    Explains words [] := by
  induction words with
  | nil => exact .nil
  | cons word words ih =>
      refine .unused (hwords word (List.mem_cons_self ..)) (ih ?_)
      exact fun other hother => hwords other (List.mem_cons_of_mem _ hother)

/-- A text has the tags of the parse that explains it. -/
theorem Explains.tags_eq (hexplains : Explains text parse) :
    text.filter (fun token => (Tag.tagName? token).isSome) =
      parse.filter fun token => (Tag.tagName? token).isSome := by
  induction hexplains with
  | nil => rfl
  | tag htag _ ih => simp [htag, ih]
  | word hword hlower _ ih => simp [hword, hlower, ih]
  | unused hword _ ih => simp [hword, ih]

/-- The words in front of the first word or tag that is explained are not used. -/
theorem Explains.dropWhile {span : OpenSpan} {following : List String}
    (hexplains : Explains text parse) (hfirst : span.firstInside = (parse ++ following).head?) :
    Explains (text.dropWhile (!span.settles ·)) parse := by
  induction hexplains with
  | nil => exact .nil
  | @tag token _ _ htag hrest _ =>
      have hsettles : span.settles token = true := by simp [OpenSpan.settles, htag]
      rw [List.dropWhile_cons_of_neg (by simp [hsettles])]
      exact .tag htag hrest
  | @word word _ _ hword hlower hrest _ =>
      have hsettles : span.settles word = true := by simp [OpenSpan.settles, hfirst]
      rw [List.dropWhile_cons_of_neg (by simp [hsettles])]
      exact .word hword hlower hrest
  | @unused word _ _ hword hrest ih =>
      by_cases hsettles : span.settles word = true
      · rw [List.dropWhile_cons_of_neg (by simp [hsettles])]
        exact .unused hword hrest
      · rw [List.dropWhile_cons_of_pos (by simpa using hsettles)]
        exact ih hfirst

/-! ## Matching a word -/

/-- A word of the parse that was spoken takes the words up to its first match, and what
comes later in the parse is matched by the words behind it. -/
theorem takeMatch_of_sublist (hsublist : (token :: later).Sublist (words.map Text.lower)) :
    ∃ skipped word left, takeMatch token words = (skipped ++ [word], left) ∧
      words = skipped ++ word :: left ∧ Text.lower word = token ∧
      later.Sublist (left.map Text.lower) := by
  induction words with
  | nil => simp at hsublist
  | cons first words ih =>
      by_cases hmatch : Text.lower first = token
      · refine ⟨[], first, words, by simp [takeMatch, hmatch], rfl, hmatch, ?_⟩
        rw [List.map_cons, hmatch] at hsublist
        exact List.cons_sublist_cons.mp hsublist
      · have hrest : (token :: later).Sublist (words.map Text.lower) := by
          rw [List.map_cons] at hsublist
          rcases List.sublist_cons_iff.mp hsublist with hrest | ⟨_, hsame, -⟩
          · exact hrest
          · exact absurd (List.cons.inj hsame).1.symm hmatch
        obtain ⟨skipped, word, left, htake, hwords, hlower, hleft⟩ := ih hrest
        refine ⟨first :: skipped, word, left, ?_, by rw [hwords]; rfl, hlower, hleft⟩
        have hne : (Text.lower first == token) = false := beq_eq_false_iff_ne.mpr hmatch
        simp [takeMatch, hne, htake]

/-! ## Open spans -/

/-- The words in front of the innermost open span and behind the others, in order. -/
def spokenIn : List OpenSpan → List String
  | [] => []
  | span :: outer => spokenIn outer ++ Tag.untagged span.outside

/-- The names of the open spans, innermost first. -/
def spanNames (stack : List OpenSpan) : List String :=
  stack.map fun span => (Tag.tagName? span.tag).getD ""

theorem spanNames_cons (span : OpenSpan) (stack : List OpenSpan) {name : String}
    (hname : Tag.tagName? span.tag = some name) :
    spanNames (span :: stack) = name :: spanNames stack := by
  simp [spanNames, hname]

/-- What is merged so far explains the tokens in `past`, span by span, and each open
span knows the token that comes first in it. -/
inductive Stacked : List OpenSpan → List String → List String → List String → Prop
  | bottom {merged past rest : List String} (explains : Explains merged past) :
      Stacked [] merged past rest
  | span {span : OpenSpan} {outer : List OpenSpan} {merged before inside rest : List String}
      (outside : Stacked outer span.outside before (span.tag :: (inside ++ rest)))
      (explains : Explains merged inside) (tagged : (Tag.tagName? span.tag).isSome)
      (first : span.firstInside = (inside ++ rest).head?) :
      Stacked (span :: outer) merged (before ++ span.tag :: inside) rest

variable {span : OpenSpan} {stack outer : List OpenSpan} {merged past rest inside : List String}

/-- What is merged next explains the next tokens. -/
theorem Stacked.extend {tokens : List String}
    (hstacked : Stacked stack merged past (tokens ++ rest)) (hmore : Explains more tokens) :
    Stacked stack (merged ++ more) (past ++ tokens) rest := by
  cases hstacked with
  | bottom hexplains => exact .bottom (hexplains.append hmore)
  | @span span outer _ before inside _ houtside hexplains htag hfirst =>
      have hpast : before ++ span.tag :: inside ++ tokens =
          before ++ span.tag :: (inside ++ tokens) := by simp
      -- the tokens pass from `rest` to the inside of the span
      rw [← List.append_assoc] at houtside hfirst
      rw [hpast]
      exact .span houtside (hexplains.append hmore) htag hfirst

/-- A tag opens a span. -/
theorem Stacked.open' (hstacked : Stacked stack merged past (token :: rest))
    (htag : (Tag.tagName? token).isSome) :
    Stacked ({ outside := merged, tag := token, firstInside := rest.head? } :: stack) []
      (past ++ [token]) rest :=
  .span hstacked .nil htag rfl

/-- Closing a span moves some words out of it, all of them in front of what settles. -/
theorem OpenSpan.exists_leading (span : OpenSpan) (inside : List String) :
    ∃ leading kept, inside = leading ++ kept ∧
      span.close inside = span.outside ++ leading ++ span.tag :: kept ∧
      (∀ word ∈ leading, Tag.tagName? word = none) ∧
      (kept = inside ∨ kept = inside.dropWhile (!span.settles ·)) := by
  by_cases hsentence : span.tag = Tag.sentenceOpen
  · refine ⟨[], inside, rfl, ?_, by simp, Or.inl rfl⟩
    simp [close, hsentence]
  · have hsplit : inside.takeWhile (!span.settles ·) ++ inside.dropWhile (!span.settles ·) =
        inside := List.takeWhile_append_dropWhile
    have hkept : inside.drop (inside.takeWhile (!span.settles ·)).length =
        inside.dropWhile (!span.settles ·) := by
      calc inside.drop (inside.takeWhile (!span.settles ·)).length
          = (inside.takeWhile (!span.settles ·) ++ inside.dropWhile (!span.settles ·)).drop
              (inside.takeWhile (!span.settles ·)).length := by rw [hsplit]
        _ = inside.dropWhile (!span.settles ·) := List.drop_left ..
    refine ⟨_, _, hsplit.symm, ?_, ?_, Or.inr rfl⟩
    · simp [close, hsentence, hkept]
    · intro word hword
      have hsettles := List.all_eq_true.mp List.all_takeWhile word hword
      simp only [settles, Bool.not_eq_true', Bool.or_eq_false_iff] at hsettles
      exact Option.not_isSome_iff_eq_none.mp (by simp [hsettles.1])

/-- A span that is put together explains its part of the parse behind what is outside. -/
theorem Stacked.close (hstacked : Stacked (span :: outer) merged past rest) :
    Stacked outer (span.close merged) past rest := by
  cases hstacked with
  | @span _ _ _ before inside _ houtside hexplains htag hfirst =>
      obtain ⟨leading, kept, hmerged, hclose, hwords, hkept⟩ := span.exists_leading merged
      have hinside : Explains kept inside := by
        rcases hkept with rfl | rfl
        · exact hexplains
        · exact hexplains.dropWhile hfirst
      have hmoved : Explains (leading ++ span.tag :: kept) (span.tag :: inside) :=
        (Explains.of_unused hwords).append (.tag htag hinside)
      rw [hclose, List.append_assoc]
      exact houtside.extend hmoved

theorem OpenSpan.untagged_close (span : OpenSpan) (inside : List String)
    (htag : (Tag.tagName? span.tag).isSome) :
    Tag.untagged (span.close inside) = Tag.untagged span.outside ++ Tag.untagged inside := by
  obtain ⟨leading, kept, hinside, hclose, -, -⟩ := span.exists_leading inside
  rw [hclose, hinside, Tag.untagged_append, Tag.untagged_append, Tag.untagged_append,
    Tag.untagged_cons_tag htag, List.append_assoc]

theorem Stacked.tagged (hstacked : Stacked (span :: outer) merged past rest) :
    (Tag.tagName? span.tag).isSome := by
  cases hstacked with
  | span _ _ htag _ => exact htag

/-! ## The ends of lists -/

theorem notMem_dropLast_of_cons {tail : List String} {last : String}
    (hlast : last ∉ (token :: tail).dropLast) : last ∉ tail.dropLast := by
  cases tail with
  | nil => simp
  | cons second tail =>
      rw [List.dropLast_cons_cons, List.mem_cons, not_or] at hlast
      exact hlast.2

/-- A token that occurs only at the end is followed by nothing. -/
theorem eq_nil_of_notMem_dropLast {tail : List String}
    (hlast : token ∉ (token :: tail).dropLast) : tail = [] := by
  cases tail with
  | nil => rfl
  | cons second tail =>
      rw [List.dropLast_cons_cons] at hlast
      exact absurd (List.mem_cons_self ..) hlast

theorem getLast?_cons_of_eq_some {α : Type} {items : List α} {first last : α}
    (hitems : items.getLast? = some last) : (first :: items).getLast? = some last := by
  cases items with
  | nil => exact absurd hitems (by simp)
  | cons second items => rwa [List.getLast?_cons_cons]

theorem getLast?_of_cons {names : List String} {first last : String}
    (hnames : (first :: names).getLast? = some last) (hfirst : first ≠ last) :
    names.getLast? = some last := by
  cases names with
  | nil => exact absurd (Option.some.inj hnames) hfirst
  | cons second names => rwa [List.getLast?_cons_cons] at hnames

/-! ## One token -/

/-- What is kept while `spoken` is merged into `parse`, with the tokens `rest` and the
words `words` still to come: what is merged explains the tokens in front of `rest`, no
word is lost, the open spans are closed in `rest`, the outermost one is the sentence,
and the words of `rest` are among those to come. -/
structure Merging (parse spoken rest words merged : List String) (stack : List OpenSpan) :
    Prop where
  stacked : ∃ past, parse = past ++ rest ∧ Stacked stack merged past rest
  kept : spokenIn stack ++ Tag.untagged merged ++ words = spoken
  nested : Tag.replay? rest (spanNames stack) = some []
  sentence : (spanNames stack).getLast? = some "s"
  last : Tag.sentenceClose ∉ rest.dropLast
  matched : (Tag.untagged rest).Sublist (words.map Text.lower)
  untagged : ∀ word ∈ words, Tag.tagName? word = none ∧ Tag.tagName? (Text.lower word) = none

namespace Merging

variable {spoken : List String}

/-- A word takes the words up to its match. -/
theorem after_word (hmerging : Merging parse spoken (token :: rest) words merged stack)
    (hword : Tag.tagName? token = none) :
    ∃ taken left, takeMatch token words = (taken, left) ∧
      Merging parse spoken rest left (merged ++ taken) stack := by
  obtain ⟨⟨past, hparse, hstacked⟩, hkept, hnested, hsentence, hlast, hmatched, huntagged⟩ :=
    hmerging
  rw [Tag.untagged_cons_word hword] at hmatched
  rw [Tag.replay?_cons_word hword] at hnested
  obtain ⟨skipped, word, left, htake, rfl, rfl, hleft⟩ := takeMatch_of_sublist hmatched
  have hskipped : ∀ other ∈ skipped, Tag.tagName? other = none :=
    fun other hother => (huntagged other (List.mem_append_left _ hother)).1
  have hmatch := huntagged word (by simp)
  refine ⟨_, left, htake, ⟨past ++ [Text.lower word], by simp [hparse], ?_⟩, ?_, hnested,
    hsentence, notMem_dropLast_of_cons hlast, hleft, ?_⟩
  · -- the words in front of the match are not used
    exact hstacked.extend
      ((Explains.of_unused hskipped).append (.word hmatch.1 hmatch.2 .nil))
  · have htaken : Tag.untagged (skipped ++ [word]) = skipped ++ [word] := by
      rw [Tag.untagged_append, Tag.untagged_eq_self hskipped, Tag.untagged_cons_word hmatch.1]
      rfl
    rw [Tag.untagged_append, htaken, ← hkept]
    simp
  · intro other hother
    exact huntagged other (by simp [hother])

/-- An opening tag opens a span, and something follows it. -/
theorem after_opening {name : String}
    (hmerging : Merging parse spoken (token :: rest) words merged stack)
    (hname : Tag.tagName? token = some name) (hopens : Tag.isClosing token = false) :
    rest ≠ [] ∧ Merging parse spoken rest words []
      ({ outside := merged, tag := token, firstInside := rest.head? } :: stack) := by
  obtain ⟨⟨past, hparse, hstacked⟩, hkept, hnested, hsentence, hlast, hmatched, huntagged⟩ :=
    hmerging
  have htag := Option.isSome_of_eq_some hname
  have hnames := spanNames_cons ⟨merged, token, rest.head?⟩ stack hname
  rw [Tag.untagged_cons_tag htag] at hmatched
  rw [Tag.replay?_cons_opening hname hopens] at hnested
  constructor
  · rintro rfl
    exact absurd hnested (by simp)
  · refine ⟨⟨past ++ [token], by simp [hparse], hstacked.open' htag⟩, ?_, ?_, ?_,
      notMem_dropLast_of_cons hlast, hmatched, huntagged⟩
    · simpa [spokenIn, Tag.untagged] using hkept
    · rw [hnames]
      exact hnested
    · rw [hnames]
      exact getLast?_cons_of_eq_some hsentence

/-- A closing tag closes a span, and if it closes the sentence, it is the last token. -/
theorem after_closing {name : String}
    (hmerging : Merging parse spoken (token :: rest) words merged stack)
    (hname : Tag.tagName? token = some name) (hcloses : Tag.isClosing token = true) :
    ∃ span outer, stack = span :: outer ∧
      if token = Tag.sentenceClose then
        rest = [] ∧ outer = [] ∧
          Explains (span.close (merged ++ (words ++ [token]))) parse ∧
          Tag.untagged (span.close (merged ++ (words ++ [token]))) = spoken
      else Merging parse spoken rest words (span.close (merged ++ [token])) outer := by
  obtain ⟨⟨past, hparse, hstacked⟩, hkept, hnested, hsentence, hlast, hmatched, huntagged⟩ :=
    hmerging
  have htag := Option.isSome_of_eq_some hname
  rw [Tag.untagged_cons_tag htag] at hmatched
  obtain ⟨top, below, hnames, htop, hbelow⟩ :=
    Tag.exists_top_of_replay?_closing hname hcloses hnested
  obtain ⟨span, outer, rfl, -, rfl⟩ := List.map_eq_cons_iff.mp hnames
  have hspan := hstacked.tagged
  refine ⟨span, outer, rfl, ?_⟩
  by_cases hend : token = Tag.sentenceClose
  · rw [if_pos hend]
    subst hend
    -- nothing follows, so no other span is open
    obtain rfl := eq_nil_of_notMem_dropLast hlast
    obtain rfl : outer = [] := by simpa using hbelow
    have hwords : ∀ word ∈ words, Tag.tagName? word = none :=
      fun word hword => (huntagged word hword).1
    have hrest : Explains (words ++ [Tag.sentenceClose]) [Tag.sentenceClose] :=
      (Explains.of_unused hwords).append (.tag htag .nil)
    refine ⟨rfl, rfl, ?_, ?_⟩
    · rw [hparse]
      cases (hstacked.extend hrest).close with
      | bottom hexplains => exact hexplains
    · rw [span.untagged_close _ hspan, Tag.untagged_append, Tag.untagged_append,
        Tag.untagged_eq_self hwords, Tag.untagged_cons_tag htag, ← hkept]
      simp [spokenIn, Tag.untagged]
  · rw [if_neg hend]
    refine ⟨⟨past ++ [token], by simp [hparse], (hstacked.extend (.tag htag .nil)).close⟩, ?_,
      hbelow, ?_, notMem_dropLast_of_cons hlast, hmatched, huntagged⟩
    · rw [span.untagged_close _ hspan, Tag.untagged_append, Tag.untagged_cons_tag htag, ← hkept]
      simp [spokenIn, Tag.untagged]
    · -- the tag that is closed is not that of the sentence
      rw [hnames] at hsentence
      refine getLast?_of_cons hsentence ?_
      rintro rfl
      exact hend (htop.trans (by decide))

/-! ## The whole parse -/

/-- Merging goes on until the whole parse is explained, and keeps all words.  In the end
the outermost span is closed by the closing tag of the sentence. -/
theorem result (hmerging : Merging parse spoken rest words merged stack) :
    Explains (mergeWords rest words merged stack) parse ∧
      Tag.untagged (mergeWords rest words merged stack) = spoken ∧
      ∃ outermost inside, stack.getLast? = some outermost ∧
        mergeWords rest words merged stack =
          outermost.close (inside ++ [Tag.sentenceClose]) := by
  induction rest generalizing words merged stack with
  | nil =>
      have hnested := hmerging.nested
      have hsentence := hmerging.sentence
      rw [Tag.replay?_nil] at hnested
      rw [Option.some.inj hnested] at hsentence
      exact absurd hsentence (by simp)
  | cons token rest ih =>
      cases hname : Tag.tagName? token with
      | none =>
          obtain ⟨taken, left, htake, hnext⟩ := hmerging.after_word hname
          have hmerge : mergeWords (token :: rest) words merged stack =
              mergeWords rest left (merged ++ taken) stack := by
            simp [mergeWords, hname, htake]
          rw [hmerge]
          exact ih hnext
      | some name =>
          by_cases hcloses : Tag.isClosing token = true
          · obtain ⟨span, outer, rfl, hclosing⟩ := hmerging.after_closing hname hcloses
            by_cases hend : token = Tag.sentenceClose
            · rw [if_pos hend] at hclosing
              obtain ⟨rfl, rfl, hexplains, hkept⟩ := hclosing
              subst hend
              have hmerge : mergeWords [Tag.sentenceClose] words merged [span] =
                  span.close (merged ++ (words ++ [Tag.sentenceClose])) := by
                simp [mergeWords, hname, hcloses, OpenSpan.closeStack]
              rw [hmerge]
              exact ⟨hexplains, hkept, span, merged ++ words, rfl, by simp⟩
            · rw [if_neg hend] at hclosing
              have hmerge : mergeWords (token :: rest) words merged (span :: outer) =
                  mergeWords rest words (span.close (merged ++ [token])) outer := by
                simp [mergeWords, hname, hcloses, hend]
              rw [hmerge]
              obtain ⟨hexplains, hkept, outermost, inside, houtermost, hshape⟩ := ih hclosing
              exact ⟨hexplains, hkept, outermost, inside, getLast?_cons_of_eq_some houtermost,
                hshape⟩
          · have hopens : Tag.isClosing token = false := by simpa using hcloses
            obtain ⟨hrest, hnext⟩ := hmerging.after_opening hname hopens
            have hmerge : mergeWords (token :: rest) words merged stack =
                mergeWords rest words []
                  ({ outside := merged, tag := token, firstInside := rest.head? } :: stack) := by
              simp [mergeWords, hname, hopens, hrest]
            rw [hmerge]
            obtain ⟨hexplains, hkept, outermost, inside, houtermost, hshape⟩ := ih hnext
            refine ⟨hexplains, hkept, outermost, inside, ?_, hshape⟩
            cases stack with
            | nil => exact absurd hmerging.sentence (by simp [spanNames])
            | cons span outer => rwa [List.getLast?_cons_cons] at houtermost

/-- Merging starts with the tag of the sentence. -/
theorem start (hnested : Tag.WellNested parse) (hopens : parse.head? = some Tag.sentenceOpen)
    (hcloses : Tag.sentenceClose ∉ parse.dropLast)
    (hmatched : (Tag.untagged parse).Sublist (words.map Text.lower))
    (huntagged : ∀ word ∈ words, Tag.tagName? word = none ∧
      Tag.tagName? (Text.lower word) = none) :
    ∃ tail span, span.outside = [] ∧ span.tag = Tag.sentenceOpen ∧
      mergeWords parse words [] [] = mergeWords tail words [] [span] ∧
      Merging parse words tail words [] [span] := by
  obtain ⟨tail, rfl⟩ := List.head?_eq_some_iff.mp hopens
  have hname : Tag.tagName? Tag.sentenceOpen = some "s" := by decide
  have hopening : Tag.isClosing Tag.sentenceOpen = false := by decide
  have htag : (Tag.tagName? Tag.sentenceOpen).isSome := by decide
  rw [Tag.WellNested, Tag.replay?_cons_opening hname hopening] at hnested
  rw [Tag.untagged_cons_tag htag] at hmatched
  have htail : tail ≠ [] := by
    rintro rfl
    exact absurd hnested (by simp)
  have hnames := spanNames_cons ⟨[], Tag.sentenceOpen, tail.head?⟩ [] hname
  refine ⟨tail, { outside := [], tag := Tag.sentenceOpen, firstInside := tail.head? }, rfl, rfl,
    by simp [mergeWords, hname, hopening, htail], ?_⟩
  exact ⟨⟨[Tag.sentenceOpen], rfl, Stacked.open' (.bottom .nil) htag⟩, rfl, hnames ▸ hnested,
    by rw [hnames]; rfl, notMem_dropLast_of_cons hcloses, hmatched, huntagged⟩

end Merging

section

variable (hnested : Tag.WellNested parse) (hopens : parse.head? = some Tag.sentenceOpen)
  (hcloses : Tag.sentenceClose ∉ parse.dropLast)
  (hmatched : (Tag.untagged parse).Sublist (words.map Text.lower))
  (huntagged : ∀ word ∈ words, Tag.tagName? word = none ∧
    Tag.tagName? (Text.lower word) = none)

include hnested hopens hcloses hmatched huntagged

/-- The spoken words are merged without loss into a well nested sentence whose words are
among them. -/
theorem mergeWords_sentence :
    Explains (mergeWords parse words [] []) parse ∧
      Tag.untagged (mergeWords parse words [] []) = words := by
  obtain ⟨tail, span, -, -, hmerge, hstart⟩ :=
    Merging.start hnested hopens hcloses hmatched huntagged
  rw [hmerge]
  exact ⟨hstart.result.1, hstart.result.2.1⟩

/-- What is merged stands between the tags of the sentence. -/
theorem exists_inside_mergeWords :
    ∃ inside, mergeWords parse words [] [] =
      Tag.sentenceOpen :: (inside ++ [Tag.sentenceClose]) := by
  obtain ⟨tail, span, houtside, htag, hmerge, hstart⟩ :=
    Merging.start hnested hopens hcloses hmatched huntagged
  obtain ⟨-, -, outermost, inside, houtermost, hshape⟩ := hstart.result
  obtain rfl : span = outermost := by simpa using houtermost
  refine ⟨inside, ?_⟩
  rw [hmerge, hshape]
  simp [OpenSpan.close, houtside, htag]

end

end Phraseology
