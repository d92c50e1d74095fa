import Phraseology.Proofs.Frame.Nesting
import Phraseology.Proofs.Tag.Replay

/-!
# A search and a repair read the same tags

A search takes a word for a tag if one stands at its start, a repair only if the whole
word is one.  Where all tags are plain the two agree, on the names that are open
(`replay?_eq`) as on what they are opened by.  So tokens that a search takes for nested
are balanced, and so is every text with the same tags (`balanced_of_tags_eq`).
-/

namespace Phraseology

namespace Repair

variable {stack left tokens text : List String} {token : String}

theorem replayWord?_untagged (hword : Tag.tagName? token = none) :
    replayWord? stack token = some stack := by
  refine replayWord?_word ?_ fun hcloses => ?_
  · cases hopens : Tag.openAnyTagName? token with
    | none => rfl
    | some name =>
        have hsome := Tag.isSome_tagName?_of_openAnyTagName? hopens
        rw [hword] at hsome
        cases hsome
  · have hsome := Tag.isSome_tagName?_of_closeTagName? hcloses
    rw [hword] at hsome
    cases hsome

/-- A plain tag does the same to the open tags for both. -/
theorem replayWord?_eq (htoken : (Tag.tagName? token).isSome → Tag.Plain token) :
    replayWord? stack token = Tag.replayToken? stack token := by
  have hopener : ∀ {name : String}, Tag.OpenName name →
      replayWord? stack (Tag.opener name) = Tag.replayToken? stack (Tag.opener name) := by
    intro name hname
    obtain ⟨htag, hopens⟩ := hname.tagName?_opener
    simp [replayWord?_opener hname, Tag.replayToken?, htag, hopens]
  cases hname : Tag.tagName? token with
  | none =>
      simp only [replayWord?_untagged hname, Tag.replayToken?, hname]
  | some name =>
      cases htoken (Option.isSome_of_eq_some hname) with
      | opening hnamed => exact hopener (.plain hnamed)
      | @command type hnamed =>
          have hcommand := hopener (.command hnamed)
          rwa [Tag.opener_command] at hcommand
      | @closing base hnamed =>
          have hcloses : Tag.isClosing ("</" ++ base ++ ">") = true := by
            rw [← hnamed.baseName_eq, ← Tag.closingTag_eq]
            exact Tag.isClosing_closingTag base
          cases stack with
          | nil =>
              simp [replayWord?, Tag.openAnyTagName?_closing, hnamed.closeTagName?_closing,
                Tag.replayToken?, hnamed.tagName?_closing, hcloses]
          | cons top below =>
              simp [replayWord?, Tag.openAnyTagName?_closing, hnamed.closeTagName?_closing,
                Tag.replayToken?, hnamed.tagName?_closing, hcloses]

theorem replay?_eq (htokens : Tag.AllPlain tokens) :
    replay? tokens stack = Tag.replay? tokens stack := by
  induction tokens generalizing stack with
  | nil => rfl
  | cons token tokens ih =>
      rw [replay?, Tag.replay?_cons, replayWord?_eq (htokens token List.mem_cons_self)]
      exact Option.bind_congr fun below _ =>
        ih fun other hother => htokens other (List.mem_cons_of_mem token hother)

/-- Tokens that are nested for a search, with their commands in the sentence or in the list
of commands, are balanced. -/
theorem balanced_of_wellNested (htokens : Tag.AllPlain tokens)
    (hnested : Tag.WellNested tokens)
    (hplaced : ∀ before opener after, tokens = before ++ opener :: after →
      Tag.isCommandOpen opener = true → ∃ top below,
        Tag.replay? before [] = some (top :: below) ∧ (top = "s" ∨ top = "commands")) :
    Balanced tokens := by
  refine ⟨(replay?_eq htokens).trans hnested, fun before type after hsplit hname => ?_⟩
  obtain ⟨top, below, hreplay, htop⟩ :=
    hplaced before _ after hsplit hname.isCommandOpen_command
  have hbefore : Tag.AllPlain before := by
    intro token htoken
    exact htokens token (hsplit ▸ List.mem_append_left _ htoken)
  refine ⟨top :: below, (replay?_eq hbefore).trans hreplay, fun first hfirst => ?_⟩
  obtain rfl : top = first := by simpa using hfirst
  exact htop

/-! ## Texts with the same tags -/

theorem nests_filter_iff :
    Nests stack (text.filter fun word => (Tag.tagName? word).isSome) left ↔
      Nests stack text left := by
  induction text generalizing stack with
  | nil => exact Iff.rfl
  | cons word text ih =>
      cases hname : Tag.tagName? word with
      | none =>
          have hword : replayWord? stack word = some stack := replayWord?_untagged hname
          have hcommand : ∀ type, word = Tag.commandOpener type → ¬ Tag.IsName type := by
            rintro type rfl hnamed
            have htag := (Tag.OpenName.command hnamed).tagName?_opener.1
            rw [Tag.opener_command, hname] at htag
            cases htag
          rw [List.filter_cons_of_neg (by simp [hname]), ih, nests_cons_iff, hword]
          constructor
          · intro hnests
            exact ⟨stack, rfl, fun type htype hnamed => absurd hnamed (hcommand type htype), hnests⟩
          · rintro ⟨below, hbelow, -, hnests⟩
            obtain rfl := Option.some.inj hbelow
            exact hnests
      | some name =>
          rw [List.filter_cons_of_pos (by simp [hname]), nests_cons_iff, nests_cons_iff]
          exact exists_congr fun below => and_congr_right fun _ => and_congr_right fun _ => ih

/-- Whether a text is balanced depends on its tags only. -/
theorem balanced_of_tags_eq (hbalanced : Balanced tokens)
    (htags : text.filter (fun word => (Tag.tagName? word).isSome) =
      tokens.filter fun word => (Tag.tagName? word).isSome) : Balanced text := by
  rw [Balanced, ← nests_filter_iff, htags, nests_filter_iff]
  exact hbalanced

end Repair

end Phraseology
