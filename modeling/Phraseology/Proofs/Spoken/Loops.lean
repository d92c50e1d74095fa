import Mathlib.Data.List.Chain
import Mathlib.Data.List.Infix
import Phraseology.Spoken.Number

/-!
# Loops over number words

An expansion of a spoken number is a loop.  In every turn it searches, from the front, for a
word of one kind and replaces it, given the words behind it (`Rewriting.turn?`).  It stops when
no such word is left.

A loop that puts in no words of its own kind takes one turn for each of its words, and it leaves
what one pass from the front leaves (`loops_apply`).  The loops over the words for repetitions
put in copies of the word behind the one that they replace.  Where this is of the same kind,
two such words stand together behind every turn, so the loop has no end (`not_loops`).  This
makes `repeatWords?` the loop, which it follows for so many turns as the words have words of the
kind: it has a result exactly if the loop ends (`repeatWords?_eq_some_iff`), and then it is that of
the pass (`repeatWords?_eq`).
-/

namespace Phraseology.Spoken

/-- The replacement of the words of one kind, each of them given the words behind it. -/
structure Rewriting where
  kind : NumberWord
  put : List NumberWord → List NumberWord

namespace Rewriting

variable {r : Rewriting} {rs later : List Rewriting} {n : Nat} {word : NumberWord}
  {front ws rest next mid last : List NumberWord}

/-! ## Loops -/

/-- One turn: the first word of the kind is replaced. -/
def turn? (r : Rewriting) : List NumberWord → Option (List NumberWord)
  | [] => none
  | word :: rest =>
    if word = r.kind then some (r.put rest ++ rest) else (r.turn? rest).map (word :: ·)

/-- A loop takes some number of turns, until no word of its kind is left. -/
inductive Loops (r : Rewriting) : Nat → List NumberWord → List NumberWord → Prop
  | stop {ws : List NumberWord} (hnone : r.turn? ws = none) : Loops r 0 ws ws
  | turn {n : Nat} {ws next last : List NumberWord} (hturn : r.turn? ws = some next)
      (hrest : Loops r n next last) : Loops r (n + 1) ws last

/-- Loops one after the other, each of them with one turn for each of its words. -/
inductive Series : List Rewriting → List NumberWord → List NumberWord → Prop
  | done (ws : List NumberWord) : Series [] ws ws
  | loop {r : Rewriting} {rs : List Rewriting} {ws mid last : List NumberWord}
      (hloops : r.Loops (ws.count r.kind) ws mid) (hrest : Series rs mid last) :
      Series (r :: rs) ws last

theorem Series.append (hfirst : Series rs ws mid) (hlater : Series later mid last) :
    Series (rs ++ later) ws last := by
  induction hfirst with
  | done ws => exact hlater
  | loop hloops _ ih => exact .loop hloops (ih hlater)

theorem turn?_eq_none_iff : r.turn? ws = none ↔ r.kind ∉ ws := by
  induction ws with
  | nil => simp [turn?]
  | cons word rest ih =>
      rw [turn?]
      split
      · next hword => simp [hword]
      · next hword => simp [ih, Ne.symm hword]

/-- What a turn replaces and what it leaves. -/
theorem exists_of_turn? (hturn : r.turn? ws = some next) :
    ∃ before rest, ws = before ++ r.kind :: rest ∧ next = before ++ (r.put rest ++ rest) := by
  induction ws generalizing next with
  | nil => cases hturn
  | cons word rest ih =>
      rw [turn?] at hturn
      split at hturn
      · next hword =>
          cases hturn
          exact ⟨[], rest, by rw [hword]; rfl, rfl⟩
      · obtain ⟨behind, hbehind, rfl⟩ := Option.map_eq_some_iff.mp hturn
        obtain ⟨before, after, rfl, rfl⟩ := ih hbehind
        exact ⟨word :: before, after, rfl, rfl⟩

theorem turn?_append (hfront : r.kind ∉ front) (ws : List NumberWord) :
    r.turn? (front ++ ws) = (r.turn? ws).map (front ++ ·) := by
  induction front with
  | nil => simp
  | cons word front ih =>
      rw [List.mem_cons, not_or] at hfront
      rw [List.cons_append, turn?, if_neg (Ne.symm hfront.1), ih hfront.2, Option.map_map]
      rfl

/-- A loop goes on behind words of other kinds. -/
theorem Loops.append (hloops : r.Loops n ws last) (hfront : r.kind ∉ front) :
    r.Loops n (front ++ ws) (front ++ last) := by
  induction hloops with
  | stop hnone =>
      apply Loops.stop
      rw [turn?_append hfront, hnone]
      rfl
  | turn hturn _ ih =>
      refine .turn ?_ ih
      rw [turn?_append hfront, hturn]
      rfl

/-- A loop leaves one thing at most. -/
theorem Loops.unique {m : Nat} {other : List NumberWord} (hloops : r.Loops n ws last)
    (hother : r.Loops m ws other) : last = other := by
  induction hloops generalizing m with
  | stop hnone =>
      cases hother with
      | stop _ => rfl
      | turn hturn _ =>
          rw [hnone] at hturn
          cases hturn
  | turn hturn _ ih =>
      cases hother with
      | stop hnone =>
          rw [hnone] at hturn
          cases hturn
      | turn hnext hrest =>
          rw [hturn] at hnext
          obtain rfl := Option.some.inj hnext
          exact ih hrest

/-! ## Loops as passes -/

/-- One pass from the front. -/
def apply (r : Rewriting) : List NumberWord → List NumberWord
  | [] => []
  | word :: rest => if word = r.kind then r.put rest ++ r.apply rest else word :: r.apply rest

/-- Whether nowhere in some words a word of the kind is replaced by words of this kind. -/
def Ends (r : Rewriting) (ws : List NumberWord) : Prop :=
  ∀ rest, r.kind :: rest <:+ ws → r.kind ∉ r.put rest

/-- A loop that puts in no words of its own kind does what a pass does, with one turn for each
of its words. -/
theorem loops_apply (hends : r.Ends ws) : r.Loops (ws.count r.kind) ws (r.apply ws) := by
  induction ws with
  | nil => exact .stop rfl
  | cons word rest ih =>
      have hrest : r.Loops (rest.count r.kind) rest (r.apply rest) :=
        ih fun after hafter => hends after (hafter.trans (List.suffix_cons word rest))
      by_cases hword : word = r.kind
      · subst hword
        rw [List.count_cons_self, apply, if_pos rfl]
        refine .turn ?_ (hrest.append (hends rest List.suffix_rfl))
        rw [turn?, if_pos rfl]
      · rw [List.count_cons_of_ne hword, apply, if_neg hword]
        have hfront : r.kind ∉ [word] := by simpa using Ne.symm hword
        exact hrest.append hfront

/-- Passes one after the other. -/
def applyAll (rs : List Rewriting) (ws : List NumberWord) : List NumberWord :=
  rs.foldl (fun ws r => r.apply ws) ws

theorem series_applyAll (hends : ∀ r ∈ rs, ∀ ws, r.Ends ws) (ws : List NumberWord) :
    Series rs ws (applyAll rs ws) := by
  induction rs generalizing ws with
  | nil => exact .done ws
  | cons r rs ih =>
      obtain ⟨hr, hrs⟩ := List.forall_mem_cons.mp hends
      exact .loop (loops_apply (hr ws)) (ih hrs _)

/-! ## What loops keep -/

/-- Whether only digits are put in, and words that are there anyway. -/
def Conserves (r : Rewriting) : Prop :=
  ∀ rest, ∀ word ∈ r.put rest, word.isDigit = true ∨ word ∈ rest

theorem mem_turn? (hconserves : r.Conserves) (hturn : r.turn? ws = some next)
    (hword : word ∈ next) : word.isDigit = true ∨ word ∈ ws := by
  obtain ⟨before, rest, rfl, rfl⟩ := exists_of_turn? hturn
  rw [List.mem_append, List.mem_append] at hword
  rw [List.mem_append, List.mem_cons]
  rcases hword with hbefore | hput | hrest
  · exact .inr (.inl hbefore)
  · refine (hconserves rest word hput).imp_right ?_
    exact fun hrest => .inr (.inr hrest)
  · exact .inr (.inr (.inr hrest))

theorem mem_loops (hconserves : r.Conserves) (hloops : r.Loops n ws last) (hword : word ∈ last) :
    word.isDigit = true ∨ word ∈ ws ∧ word ≠ r.kind := by
  induction hloops with
  | stop hnone =>
      refine .inr ⟨hword, ?_⟩
      rintro rfl
      exact turn?_eq_none_iff.mp hnone hword
  | turn hturn _ ih =>
      rcases ih hword with hdigit | ⟨hnext, hkind⟩
      · exact .inl hdigit
      · exact (mem_turn? hconserves hturn hnext).imp_right fun hws => ⟨hws, hkind⟩

/-- What is left is a digit, or was there and is of none of the kinds. -/
theorem mem_series (hconserves : ∀ r ∈ rs, r.Conserves) (hseries : Series rs ws last)
    (hword : word ∈ last) : word.isDigit = true ∨ word ∈ ws ∧ word ∉ rs.map kind := by
  induction hseries with
  | done ws => exact .inr ⟨hword, List.not_mem_nil⟩
  | loop hloops _ ih =>
      obtain ⟨hr, hrs⟩ := List.forall_mem_cons.mp hconserves
      rcases ih hrs hword with hdigit | ⟨hmid, hlater⟩
      · exact .inl hdigit
      · refine (mem_loops hr hloops hmid).imp_right fun ⟨hws, hkind⟩ => ⟨hws, ?_⟩
        rw [List.map_cons, List.mem_cons, not_or]
        exact ⟨hkind, hlater⟩

theorem sublist_turn? (hkind : written? r.kind = none) (hturn : r.turn? ws = some next) :
    (ws.filterMap written?).Sublist (next.filterMap written?) := by
  obtain ⟨before, rest, rfl, rfl⟩ := exists_of_turn? hturn
  rw [List.filterMap_append, List.filterMap_append, List.filterMap_append,
    List.filterMap_cons_none hkind]
  exact (List.sublist_append_right _ _).append_left _

theorem sublist_loops (hkind : written? r.kind = none) (hloops : r.Loops n ws last) :
    (ws.filterMap written?).Sublist (last.filterMap written?) := by
  induction hloops with
  | stop _ => exact List.Sublist.refl _
  | turn hturn _ ih => exact (sublist_turn? hkind hturn).trans ih

/-- The symbols are kept, in their order. -/
theorem sublist_series (hkinds : ∀ r ∈ rs, written? r.kind = none) (hseries : Series rs ws last) :
    (ws.filterMap written?).Sublist (last.filterMap written?) := by
  induction hseries with
  | done ws => exact List.Sublist.refl _
  | loop hloops _ ih =>
      obtain ⟨hr, hrs⟩ := List.forall_mem_cons.mp hkinds
      exact (sublist_loops hr hloops).trans (ih hrs)

/-! ## Repetitions -/

/-- A word for repetitions is replaced by all of them but one, which is there already. -/
def repeats (count : Nat) : Rewriting where
  kind := .times count
  put := repetitions count

section Repetitions

variable {count : Nat}

theorem repeatFirst?_eq (count : Nat) (ws : List NumberWord) :
    repeatFirst? count ws = (repeats count).turn? ws := by
  induction ws with
  | nil => rfl
  | cons word rest ih =>
      rw [repeatFirst?, turn?, ih]
      exact if_congr beq_iff_eq rfl rfl

/-- The loop has the result that comes out within some turns, if one does. -/
theorem repeatTurns?_eq_some_iff {turns : Nat} :
    repeatTurns? count turns ws = some last ↔
      ∃ n ≤ turns, (repeats count).Loops n ws last := by
  induction turns generalizing ws with
  | zero =>
      have hleft : (repeats count).turn? ws = none ↔ ws.contains (.times count) = false := by
        rw [turn?_eq_none_iff, ← Bool.not_eq_true, List.contains_iff_mem]
        rfl
      rw [repeatTurns?]
      constructor
      · intro hresult
        split_ifs at hresult with hmore
        obtain rfl := Option.some.inj hresult
        exact ⟨0, le_rfl, .stop (hleft.mpr (by simpa using hmore))⟩
      · rintro ⟨n, hn, hloops⟩
        cases hloops with
        | stop hnone => rw [if_neg (by simpa using hleft.mp hnone)]
        | turn _ _ => simp at hn
  | succ turns ih =>
      rw [repeatTurns?, repeatFirst?_eq]
      cases hturn : (repeats count).turn? ws with
      | none =>
          constructor
          · intro hresult
            obtain rfl := Option.some.inj hresult
            exact ⟨0, Nat.zero_le _, .stop hturn⟩
          · rintro ⟨n, -, hloops⟩
            cases hloops with
            | stop _ => rfl
            | turn hnext _ => rw [hturn] at hnext; cases hnext
      | some next =>
          rw [ih]
          constructor
          · rintro ⟨n, hn, hloops⟩
            exact ⟨n + 1, Nat.succ_le_succ hn, .turn hturn hloops⟩
          · rintro ⟨n, hn, hloops⟩
            cases hloops with
            | stop hnone => rw [hturn] at hnone; cases hnone
            | turn hnext hrest =>
                rw [hturn] at hnext
                obtain rfl := Option.some.inj hnext
                exact ⟨_, Nat.le_of_succ_le_succ hn, hrest⟩

/-- Where no two words of the kind stand together, the word that is repeated is of another. -/
theorem ends_repeats (hapart : ¬ [.times count, .times count] <:+: ws) :
    (repeats count).Ends ws := by
  intro rest hsuffix hput
  cases rest with
  | nil => cases hput
  | cons next rest =>
      obtain rfl : next = .times count := (List.eq_of_mem_replicate hput).symm
      exact hapart (List.IsInfix.trans ⟨[], rest, rfl⟩ hsuffix.isInfix)

/-- Two words of the kind that stand together do so behind every turn. -/
theorem infix_of_turn? (hcount : 2 ≤ count)
    (htogether : [.times count, .times count] <:+: ws)
    (hturn : (repeats count).turn? ws = some next) :
    [.times count, .times count] <:+: next := by
  induction ws generalizing next with
  | nil => cases hturn
  | cons word rest ih =>
      rw [turn?] at hturn
      split at hturn
      · obtain rfl := Option.some.inj hturn
        rcases List.infix_cons_iff.mp htogether with hfirst | hlater
        · -- the second is put in again, in front of itself
          obtain ⟨-, hsecond⟩ := List.cons_prefix_cons.mp hfirst
          obtain ⟨more, rfl⟩ := hsecond
          obtain ⟨n, rfl⟩ := Nat.exists_eq_add_of_le' hcount
          refine ⟨List.replicate n (.times (n + 2)), more, ?_⟩
          show _ = List.replicate (n + 1) (.times (n + 2)) ++ .times (n + 2) :: more
          rw [List.replicate_succ']
          simp
        · exact hlater.trans (List.suffix_append _ _).isInfix
      · next hword =>
          obtain ⟨behind, hbehind, rfl⟩ := Option.map_eq_some_iff.mp hturn
          rcases List.infix_cons_iff.mp htogether with hfirst | hlater
          · exact absurd (List.cons_prefix_cons.mp hfirst).1.symm hword
          · exact (ih hlater hbehind).trans (List.suffix_cons word behind).isInfix

/-- A loop that meets two words of its kind together has no end. -/
theorem not_loops (hcount : 2 ≤ count) (htogether : [.times count, .times count] <:+: ws) :
    ¬ (repeats count).Loops n ws last := by
  intro hloops
  induction hloops with
  | stop hnone =>
      refine turn?_eq_none_iff.mp hnone (htogether.subset ?_)
      exact List.mem_cons_self
  | turn hturn _ ih => exact ih (infix_of_turn? hcount htogether hturn)

/-- A loop over words for repetitions leaves what the pass leaves, or it has no end. -/
theorem repeatWords?_eq (hcount : 2 ≤ count) (ws : List NumberWord) :
    repeatWords? count ws =
      if [.times count, .times count] <:+: ws then none else some ((repeats count).apply ws) := by
  split
  · next htogether =>
      rw [Option.eq_none_iff_forall_not_mem]
      intro last hlast
      obtain ⟨n, -, hloops⟩ := repeatTurns?_eq_some_iff.mp hlast
      exact not_loops hcount htogether hloops
  · next hapart =>
      exact repeatTurns?_eq_some_iff.mpr ⟨_, le_rfl, loops_apply (ends_repeats hapart)⟩

/-- The loop has a result exactly if it ends, however many turns it may take. -/
theorem repeatWords?_eq_some_iff (hcount : 2 ≤ count) :
    repeatWords? count ws = some last ↔ ∃ n, (repeats count).Loops n ws last := by
  constructor
  · intro hresult
    obtain ⟨n, -, hloops⟩ := repeatTurns?_eq_some_iff.mp hresult
    exact ⟨n, hloops⟩
  · rintro ⟨n, hloops⟩
    have hapart : ¬ [.times count, .times count] <:+: ws := fun htogether =>
      not_loops hcount htogether hloops
    have hpass := loops_apply (ends_repeats hapart)
    rw [repeatWords?_eq hcount, if_neg hapart, hpass.unique hloops]

end Repetitions

end Rewriting

end Phraseology.Spoken
