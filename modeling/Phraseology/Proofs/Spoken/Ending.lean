import Phraseology.Proofs.Spoken.Loops

/-!
# Numbers whose loops end

Of the loops of a spoken number only those for repetitions may have no end.  They come behind
those for `hundred` and `thousand`, first that for `double` and then that for `triple`.  The first
has no end if two of its words stand together.  If it ends, it has put in the word behind each
`double` once more.  So the second has no end if two of its words stood together, or one of them
behind a `double` (`clashes`).  A `triple` in front of a `double` does no harm.

A number of which no two words clash is written as what one pass for each expansion leaves, and
there is no other that is written (`number?_eq`).
-/

namespace Phraseology.Spoken

open Rewriting (repeats)

variable {words : List String} {text : String} {ws : List NumberWord}

/-! ## Words that clash -/

/-- Whether two words for repetitions that stand together keep the loop for the second from
ending. -/
def NumberWord.clashes : NumberWord → NumberWord → Bool
  | .times 2, .times 2 => true
  | .times 2, .times 3 => true
  | .times 3, .times 3 => true
  | _, _ => false

/-- Two words that may stand together. -/
def Agree (first second : NumberWord) : Prop :=
  first.clashes second = false

instance (first second : NumberWord) : Decidable (Agree first second) :=
  inferInstanceAs (Decidable (_ = false))

/-- Whether this asks for repetitions. -/
def NumberWord.isTimes : NumberWord → Bool
  | .times _ => true
  | _ => false

/-- Two words that are not both for repetitions. -/
def Apart (first second : NumberWord) : Prop :=
  first.isTimes = true → second.isTimes = false

instance (first second : NumberWord) : Decidable (Apart first second) :=
  inferInstanceAs (Decidable (_ → _))

/-- What the expansions up to that of `hundred` leave. -/
def expandMultipliers (ws : List NumberWord) : List NumberWord :=
  expandHundreds (expandThousands (restoreOne ws))

/-- The words of a number behind the expansions of `thousand` and `hundred`. -/
def wholeWords (words : List String) : List NumberWord :=
  expandMultipliers (numberWords words)

/-- Whether all loops end for a spoken number. -/
def NumberEnds (words : List String) : Prop :=
  (wholeWords words).IsChain Agree

instance (words : List String) : Decidable (NumberEnds words) :=
  inferInstanceAs (Decidable ((wholeWords words).IsChain Agree))

/-- Whether no two words for repetitions stand together where they are worked off. -/
def RepeatsApart (words : List String) : Prop :=
  (wholeWords words).IsChain Apart

instance (words : List String) : Decidable (RepeatsApart words) :=
  inferInstanceAs (Decidable ((wholeWords words).IsChain Apart))

theorem agree_of_not_isTimes {first : NumberWord} (hfirst : first.isTimes = false)
    (second : NumberWord) : Agree first second := by
  cases first with
  | times _ => cases hfirst
  | _ => rfl

theorem Apart.agree {first second : NumberWord} (hapart : Apart first second) :
    Agree first second := by
  cases hfirst : first.isTimes with
  | false => exact agree_of_not_isTimes hfirst second
  | true =>
      have hsecond := hapart hfirst
      cases second with
      | times _ => cases hsecond
      | _ => simp [Agree, NumberWord.clashes]

/-- Loops end where no two words for repetitions stand together. -/
theorem RepeatsApart.numberEnds (hapart : RepeatsApart words) : NumberEnds words :=
  List.IsChain.imp (fun _ _ => Apart.agree) hapart

/-! ## The two loops -/

theorem not_infix_iff {first second : NumberWord} :
    ¬ [first, second] <:+: ws ↔ ws.IsChain fun a b => ¬ (a = first ∧ b = second) := by
  rw [List.isChain_iff_forall_rel_of_append_cons_cons]
  constructor
  · rintro hnone a b before after rfl ⟨rfl, rfl⟩
    exact hnone ⟨before, after, by simp⟩
  · rintro hchain ⟨before, after, rfl⟩
    exact hchain (List.append_assoc before [first, second] after) ⟨rfl, rfl⟩

theorem apply_repeats_of_ne {word : NumberWord} {count : Nat} (hword : word ≠ .times count)
    (rest : List NumberWord) :
    (repeats count).apply (word :: rest) = word :: (repeats count).apply rest :=
  if_neg hword

theorem apply_double (next : NumberWord) (rest : List NumberWord) :
    (repeats 2).apply (.times 2 :: next :: rest) = next :: (repeats 2).apply (next :: rest) :=
  if_pos rfl

theorem agree_double_iff {second : NumberWord} (hsecond : second ≠ .times 2) :
    Agree (.times 2) second ↔ second ≠ .times 3 := by
  unfold Agree NumberWord.clashes
  split <;> simp_all

theorem agree_triple_iff {second : NumberWord} :
    Agree (.times 3) second ↔ second ≠ .times 3 := by
  unfold Agree NumberWord.clashes
  split <;> simp_all

theorem agree_of_ne {first : NumberWord} (hdouble : first ≠ .times 2) (htriple : first ≠ .times 3)
    (second : NumberWord) : Agree first second := by
  unfold Agree NumberWord.clashes
  split <;> simp_all

/-- What the loop for `double` leaves starts with a `triple` only if this stood there before. -/
theorem head?_apply_double_ne_iff (hagree : ws.IsChain Agree) :
    (∀ first ∈ ((repeats 2).apply ws).head?, first ≠ .times 3) ↔
      ∀ first ∈ ws.head?, first ≠ .times 3 := by
  match ws with
  | [] => exact Iff.rfl
  | [word] =>
      by_cases hword : word = .times 2
      · subst hword
        simp [Rewriting.apply, repeats, repetitions]
      · rw [apply_repeats_of_ne hword]
        rfl
  | word :: next :: rest =>
      by_cases hword : word = .times 2
      · subst hword
        have hnext := (List.isChain_cons_cons.mp hagree).1
        have hother : next ≠ .times 2 := by
          rintro rfl
          cases hnext
        rw [apply_double]
        simpa using (agree_double_iff hother).mp hnext
      · rw [apply_repeats_of_ne hword]
        rfl

/-- If the loop for `double` ends, that for `triple` ends exactly if no `triple` stands behind
another one or behind a `double`. -/
theorem isChain_apply_double_iff
    (hdoubles : ws.IsChain fun a b => ¬ (a = .times 2 ∧ b = .times 2)) :
    (((repeats 2).apply ws).IsChain fun a b => ¬ (a = .times 3 ∧ b = .times 3)) ↔
      ws.IsChain Agree := by
  induction ws with
  | nil => exact iff_of_true .nil .nil
  | cons word rest ih =>
      obtain ⟨hfirst, hrest⟩ := List.isChain_cons.mp hdoubles
      have ihrest := ih hrest
      by_cases hword : word = .times 2
      · subst hword
        cases rest with
        | nil => exact iff_of_true .nil (.singleton _)
        | cons next rest =>
            have hnext : next ≠ .times 2 := fun hsame => hfirst next rfl ⟨rfl, hsame⟩
            rw [apply_double, List.isChain_cons_cons, agree_double_iff hnext, ← ihrest,
              apply_repeats_of_ne hnext, List.isChain_cons_cons]
            simp
      · rw [apply_repeats_of_ne hword, List.isChain_cons, List.isChain_cons, ihrest]
        refine and_congr_left fun hagree => ?_
        by_cases htriple : word = .times 3
        · subst htriple
          simpa [agree_triple_iff] using head?_apply_double_ne_iff hagree
        · simp [htriple, agree_of_ne hword htriple]

/-- Both loops end exactly if no two words clash. -/
theorem isChain_agree_iff :
    ws.IsChain Agree ↔ ¬ [.times 2, .times 2] <:+: ws ∧
      ¬ [.times 3, .times 3] <:+: (repeats 2).apply ws := by
  have hdoubles : ws.IsChain Agree → ¬ [.times 2, .times 2] <:+: ws := by
    intro hagree
    refine not_infix_iff.mpr (List.IsChain.imp ?_ hagree)
    rintro a b hab ⟨rfl, rfl⟩
    cases hab
  constructor
  · intro hagree
    refine ⟨hdoubles hagree, not_infix_iff.mpr ?_⟩
    exact (isChain_apply_double_iff (not_infix_iff.mp (hdoubles hagree))).mpr hagree
  · rintro ⟨hnone, htriples⟩
    exact (isChain_apply_double_iff (not_infix_iff.mp hnone)).mp (not_infix_iff.mp htriples)

/-- The two loops leave what their passes leave, or one of them has no end. -/
theorem repeatWords?_both (ws : List NumberWord) :
    (repeatWords? 2 ws).bind (repeatWords? 3) =
      if ws.IsChain Agree then some ((repeats 3).apply ((repeats 2).apply ws)) else none := by
  rw [Rewriting.repeatWords?_eq le_rfl]
  split
  · next htogether =>
      rw [if_neg fun hagree => (isChain_agree_iff.mp hagree).1 htogether]
      rfl
  · next hdoubles =>
      rw [Option.bind_some, Rewriting.repeatWords?_eq (by decide)]
      split
      · next htogether =>
          rw [if_neg fun hagree => (isChain_agree_iff.mp hagree).2 htogether]
      · next htriples => rw [if_pos (isChain_agree_iff.mpr ⟨hdoubles, htriples⟩)]

/-! ## Numbers as passes -/

/-- What the passes behind that for `hundred` leave, up to those for the teens. -/
def expandBelowHundred (ws : List NumberWord) : List NumberWord :=
  expandAllTens ((repeats 3).apply ((repeats 2).apply ws))

/-- What one pass for each expansion leaves. -/
def expandPass (ws : List NumberWord) : List NumberWord :=
  (expandBelowHundred (expandMultipliers ws)).flatMap expandTeen

/-- The characters that the passes leave of a spoken number. -/
def passChars (words : List String) : List Char :=
  (expandPass (numberWords words)).filterMap written?

/-- The text that the passes leave of a spoken number. -/
def passText (words : List String) : String :=
  String.ofList (passChars words)

theorem expandNumber?_eq (words : List String) :
    expandNumber? (numberWords words) =
      if NumberEnds words then some (expandPass (numberWords words)) else none := by
  rw [expandNumber?, repeatWords?_both]
  exact apply_ite (Option.map _) _ _ _

theorem numberChars?_eq (words : List String) :
    numberChars? words = if NumberEnds words then some (passChars words) else none := by
  rw [numberChars?, expandNumber?_eq]
  exact apply_ite (Option.map _) _ _ _

/-- A number is written as what the passes leave, if all its loops end. -/
theorem number?_eq (words : List String) :
    number? words = if NumberEnds words then some (passText words) else none := by
  rw [number?, numberChars?_eq]
  exact apply_ite (Option.map _) _ _ _

theorem number?_eq_some_iff :
    number? words = some text ↔ NumberEnds words ∧ passText words = text := by
  rw [number?_eq]
  split_ifs with hends <;> simp [hends]

theorem isSome_numberChars?_iff : (numberChars? words).isSome ↔ NumberEnds words := by
  rw [numberChars?_eq]
  split_ifs with hends <;> simp [hends]

theorem isSome_number?_iff : (number? words).isSome ↔ NumberEnds words := by
  rw [number?, Option.isSome_map, isSome_numberChars?_iff]

end Phraseology.Spoken
