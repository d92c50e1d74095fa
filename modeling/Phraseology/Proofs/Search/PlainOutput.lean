import Phraseology.Proofs.Search.Keys
import Phraseology.Proofs.Tag.Opening

/-!
# The tags of a parse are plain

A search puts out the opening tags of its grammar, words of its sentence, and closing tags
that are made from the names of open tags.  If the grammar has plain tags only, these
names are `OpenName`s (`Task.Reached.plain_output`), so all tags of a parse are plain,
whether it is complete or closed by force (`Task.plain_of_mem_run`).
-/

namespace Phraseology

variable {task : Task} {state : State}

open Tag (AllPlain)

/-! ## States -/

/-- What has been put out, and the names of the tags that are open. -/
theorem Task.Reached.plain_output (hplain : task.grammar.PlainTags)
    (hreached : task.Reached state) :
    AllPlain state.output ∧ ∀ name ∈ state.openTags, Tag.OpenName name := by
  induction hreached with
  | initial => exact ⟨by simp [AllPlain, State.initial], by simp [State.initial]⟩
  | move _ hmove ih =>
      obtain ⟨houtput, hnames⟩ := ih
      cases hmove with
      | pass _ _ => exact ⟨houtput, hnames⟩
      | @openTag target arc text name hleaves hopens _ =>
          obtain ⟨hname, hopening⟩ := Arc.tag_of_opening hopens
          have htext : Tag.Plain text := by
            have harc := hplain _ target arc hleaves
            rw [Arc.output_of_opening hopens] at harc
            exact harc (Option.isSome_of_eq_some hname)
          refine ⟨houtput.append ?_, ?_⟩
          · intro token htoken _
            rw [List.mem_singleton.mp htoken]
            exact htext
          · exact List.forall_mem_cons.mpr ⟨(htext.openName_of_opening hname hopening).1, hnames⟩
      | closeTag _ _ =>
          refine ⟨houtput.append (.map_closingTag fun name hname => ?_), fun name hname => ?_⟩
          · exact hnames name (List.mem_of_mem_take hname)
          · exact hnames name (List.mem_of_mem_drop hname)
      | readWord _ hreads _ =>
          refine ⟨houtput.append (.of_untagged fun token htoken => ?_), hnames⟩
          rw [List.mem_singleton.mp htoken]
          exact Arc.untagged_of_reads hreads
      | skipWord _ _ _ => exact ⟨houtput, hnames⟩

/-! ## Parses -/

theorem State.plain_closing {names : List String} (hnames : ∀ name ∈ names, Tag.OpenName name)
    {closing : State.Closing} (htokens : AllPlain closing.tokens)
    (hunread : AllPlain closing.unread) :
    AllPlain (names.foldl State.Closing.close closing).tokens := by
  induction names generalizing closing with
  | nil => exact htokens
  | cons name names ih =>
      obtain ⟨hname, hrest⟩ := List.forall_mem_cons.mp hnames
      have hone : ∀ other ∈ [name], Tag.OpenName other := by simpa using hname
      have hclosed : AllPlain [Tag.closingTag name] := .map_closingTag hone
      rw [List.foldl_cons]
      unfold State.Closing.close
      split
      · exact ih hrest ((htokens.append hunread).append hclosed) (by simp [AllPlain])
      · exact ih hrest (htokens.append hclosed) hunread

theorem Task.Completes.plain {parse : Parse} (hplain : task.grammar.PlainTags)
    (hparse : task.Completes state parse) : AllPlain parse.tokens := by
  obtain ⟨hreached, -, hcomplete⟩ := hparse
  obtain ⟨houtput, hnames⟩ := hreached.plain_output hplain
  rcases State.complete?_eq_some hcomplete with ⟨-, htokens, -⟩ | ⟨-, -, htokens, -⟩
  · rw [htokens]
    exact houtput.append (.map_closingTag hnames)
  · rw [htokens]
    exact houtput

/-- All tags of all parses that a search gives back are plain. -/
theorem Task.plain_of_mem_run {watch : Watch} {limits : Limits} {earlier : List Report}
    {parses : List Parse} {parse : Parse} (hplain : task.grammar.PlainTags)
    (hwords : ∀ heard ∈ task.sentence, Tag.tagName? heard.token = none)
    (hrun : (task.run watch limits earlier).result = .ok parses) (hparse : parse ∈ parses) :
    AllPlain parse.tokens := by
  rcases Task.complete_or_forced_of_mem_run hrun hparse with
    ⟨state, hcomplete⟩ | ⟨state, hreached, rfl⟩
  · exact hcomplete.plain hplain
  · obtain ⟨houtput, hnames⟩ := hreached.plain_output hplain
    refine State.plain_closing hnames houtput (.of_untagged fun token htoken => ?_)
    obtain ⟨heard, hheard, rfl⟩ := List.mem_map.mp htoken
    exact hwords heard (hreached.mem_sentence_of_mem_unread hheard)

end Phraseology
