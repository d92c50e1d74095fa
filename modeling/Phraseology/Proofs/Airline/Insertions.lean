import Mathlib.Data.List.Nodup
import Phraseology.Airline
import Phraseology.Proofs.Text.Words

/-!
# What an airline table knows

A table grows by insertions, some of which it refuses.  Of all insertions of a name it keeps the
first.  Its index leads from each listed name to the place of that name, and from no other name to
anywhere (`Tracks`).  An insertion keeps this whether it succeeds or not (`Tracks.attempt`), so it
holds behind any history of insertions (`tracks_ofAttempts`).

A file is worked off line by line.  As long as its lines are blank or hold airlines with new names,
these are inserted one after the other (`readLines_append`), and the first line at fault ends it
(`readLines_of_faulty`).  One of the two is the case (`exists_lists_or_faulty`).
-/

namespace Phraseology.AirlineTable

variable {table : AirlineTable} {airline known : Airline} {history airlines : List Airline}
  {name : String} {number : Nat}

/-! ## Insertions -/

/-- The table behind an insertion.  One that is refused leaves it as it was. -/
def attempt (table : AirlineTable) (airline : Airline) : AirlineTable :=
  match table.insert airline with
  | .ok grown => grown
  | .error _ => table

/-- The table behind some insertions. -/
def ofAttempts (history : List Airline) : AirlineTable :=
  history.foldl attempt empty

/-- The first of some airlines with a name. -/
def firstNamed? (history : List Airline) (name : String) : Option Airline :=
  history.find? (·.name == name)

/-- The index of a table leads to the place of each listed name, and what it leads to is the first
insertion of the name. -/
structure Tracks (table : AirlineTable) (history : List Airline) : Prop where
  index : ∀ (name : String) (i : Nat), table.index[name]? = some i ↔ table.names[i]? = some name
  found : ∀ name, table.find? name = firstNamed? history name

theorem ofAttempts_append (history more : List Airline) :
    ofAttempts (history ++ more) = more.foldl attempt (ofAttempts history) :=
  List.foldl_append

theorem ofAttempts_concat (history : List Airline) (airline : Airline) :
    ofAttempts (history ++ [airline]) = (ofAttempts history).attempt airline :=
  ofAttempts_append history [airline]

theorem getElem?_names (table : AirlineTable) (i : Nat) :
    table.names[i]? = table.entries[i]?.map (·.name) := by
  simp [names]

theorem firstNamed?_eq_none_iff :
    firstNamed? history name = none ↔ name ∉ history.map (·.name) := by
  simp [firstNamed?]

theorem firstNamed?_concat (history : List Airline) (airline : Airline) (name : String) :
    firstNamed? (history ++ [airline]) name =
      (firstNamed? history name).or (if airline.name = name then some airline else none) := by
  simp [firstNamed?, List.find?_append, List.find?_singleton]

theorem tracks_empty : empty.Tracks [] where
  index := by simp [empty, names]
  found := by simp [empty, find?, firstNamed?]

/-- What the index leads to is an entry of the table. -/
theorem Tracks.isSome_find?_iff (htracks : table.Tracks history) :
    (table.find? name).isSome ↔ table.index[name]?.isSome := by
  unfold find?
  cases hindex : table.index[name]? with
  | none => simp
  | some i =>
      have hname := (htracks.index name i).mp hindex
      rw [getElem?_names] at hname
      obtain ⟨entry, hentry, -⟩ := Option.map_eq_some_iff.mp hname
      simp [hentry]

/-- The table that holds one more airline. -/
def grow (table : AirlineTable) (airline : Airline) : AirlineTable where
  entries := table.entries.push airline
  index := table.index.insert airline.name table.entries.size

theorem insert_of_some (hknown : table.find? airline.name = some known) :
    table.insert airline = .error (.duplicateName airline.name known.code airline.code) := by
  simp only [insert, hknown]

theorem insert_of_none (hnew : table.find? airline.name = none) :
    table.insert airline = .ok (table.grow airline) := by
  simp only [insert, hnew]
  rfl

theorem attempt_of_some (hknown : table.find? airline.name = some known) :
    table.attempt airline = table := by
  simp only [attempt, insert_of_some hknown]

theorem attempt_of_none (hnew : table.find? airline.name = none) :
    table.attempt airline = table.grow airline := by
  simp only [attempt, insert_of_none hnew]

theorem getElem?_index_grow (table : AirlineTable) (airline : Airline) (name : String) :
    (table.grow airline).index[name]? =
      if airline.name = name then some table.entries.size else table.index[name]? := by
  simp only [grow, Std.TreeMap.getElem?_insert, Std.LawfulEqCmp.compare_eq_iff_eq]

theorem getElem?_names_grow (table : AirlineTable) (airline : Airline) (i : Nat) :
    (table.grow airline).names[i]? =
      if i = table.entries.size then some airline.name else table.names[i]? := by
  rw [getElem?_names, getElem?_names, grow, Array.getElem?_push]
  split <;> rfl

/-- The entry of an airline with a new name is the last one. -/
theorem Tracks.grow (htracks : table.Tracks history)
    (hnew : table.find? airline.name = none) :
    (table.grow airline).Tracks (history ++ [airline]) := by
  have hunlisted : table.index[airline.name]? = none := by
    rw [← Option.not_isSome_iff_eq_none, ← htracks.isSome_find?_iff, hnew]
    exact Bool.false_ne_true
  have hinside : ∀ {name : String} {i : Nat}, table.index[name]? = some i →
      i ≠ table.entries.size := by
    rintro name i hindex rfl
    have hname := (htracks.index name _).mp hindex
    simp [names] at hname
  constructor
  · intro name i
    rw [getElem?_index_grow, getElem?_names_grow]
    by_cases hname : airline.name = name
    · subst hname
      by_cases hi : i = table.entries.size
      · simp [hi]
      · -- the name is not listed further in front
        rw [if_pos rfl, if_neg hi, ← htracks.index, hunlisted]
        simpa using Ne.symm hi
    · rw [if_neg hname]
      by_cases hi : i = table.entries.size
      · rw [if_pos hi]
        exact iff_of_false (fun hindex => hinside hindex hi) (by simpa using hname)
      · rw [if_neg hi]
        exact htracks.index name i
  · intro name
    rw [firstNamed?_concat, ← htracks.found, find?, getElem?_index_grow]
    by_cases hname : airline.name = name
    · subst hname
      rw [if_pos rfl, if_pos rfl, hnew]
      simp [AirlineTable.grow]
    · rw [if_neg hname, if_neg hname, Option.or_none, find?]
      refine Option.bind_congr fun i hindex => ?_
      rw [AirlineTable.grow, Array.getElem?_push, if_neg (hinside hindex)]

/-- An insertion keeps the index in step with the entries, whether it succeeds or not. -/
theorem Tracks.attempt (htracks : table.Tracks history) (airline : Airline) :
    (table.attempt airline).Tracks (history ++ [airline]) := by
  cases hfind : table.find? airline.name with
  | some known =>
      rw [attempt_of_some hfind]
      refine ⟨htracks.index, fun name => ?_⟩
      rw [firstNamed?_concat, ← htracks.found]
      split
      · next hname => rw [← hname, hfind, Option.some_or]
      · rw [Option.or_none]
  | none =>
      rw [attempt_of_none hfind]
      exact htracks.grow hfind

theorem Tracks.foldl_attempt (htracks : table.Tracks history) (more : List Airline) :
    (more.foldl AirlineTable.attempt table).Tracks (history ++ more) := by
  induction more generalizing table history with
  | nil => simpa using htracks
  | cons airline more ih => simpa using ih (htracks.attempt airline)

theorem tracks_ofAttempts (history : List Airline) : (ofAttempts history).Tracks history :=
  tracks_empty.foldl_attempt history

/-- Another insertion of a name is refused. -/
example : (ofAttempts [⟨"DLH", "lufthansa"⟩, ⟨"SWR", "swiss"⟩, ⟨"LHA", "lufthansa"⟩]).codeFor?
    "lufthansa" = some "DLH" := by decide

/-! ## What follows for the names -/

/-- No name is listed twice, since the index leads to one place only. -/
theorem Tracks.nodup_names (htracks : table.Tracks history) : table.names.Nodup := by
  rw [List.nodup_iff_getElem?_ne_getElem?]
  intro i j hij hj hsame
  obtain ⟨name, hname⟩ : ∃ name, table.names[j]? = some name := ⟨_, List.getElem?_eq_getElem hj⟩
  have hfirst := (htracks.index name i).mpr (hsame.trans hname)
  have hsecond := (htracks.index name j).mpr hname
  rw [hfirst] at hsecond
  exact absurd (Option.some.inj hsecond) (Nat.ne_of_lt hij)

theorem Tracks.codeFor?_eq (htracks : table.Tracks history) (name : String) :
    table.codeFor? name = (firstNamed? history name).map (·.code) := by
  rw [codeFor?, htracks.found]

theorem Tracks.contains_iff (htracks : table.Tracks history) :
    table.contains name = true ↔ name ∈ table.names := by
  rw [contains, Std.TreeMap.contains_eq_isSome_getElem?, Option.isSome_iff_exists,
    List.mem_iff_getElem?]
  exact exists_congr fun i => htracks.index name i

/-- The names of a table are those that were to be inserted. -/
theorem Tracks.mem_names_iff (htracks : table.Tracks history) :
    name ∈ table.names ↔ name ∈ history.map (·.name) := by
  rw [← htracks.contains_iff, contains, Std.TreeMap.contains_eq_isSome_getElem?,
    ← htracks.isSome_find?_iff, htracks.found, Option.isSome_iff_ne_none, ne_eq,
    firstNamed?_eq_none_iff, Classical.not_not]

/-- Later insertions do not change what the first one of a name has set. -/
theorem firstNamed?_append_of_some (hknown : firstNamed? history name = some known)
    (more : List Airline) : firstNamed? (history ++ more) name = some known := by
  rw [firstNamed?, List.find?_append, ← firstNamed?, hknown, Option.some_or]

/-! ## Lines -/

/-- Whether a line holds an airline. -/
def Holds (line : String) (airline : Airline) : Prop :=
  Text.words line = [airline.code, airline.name]

/-- The airlines on some lines.  Blank lines are passed over. -/
inductive Lists : List String → List Airline → Prop
  | nil : Lists [] []
  | blank {line : String} {lines : List String} {airlines : List Airline}
      (hblank : Text.isBlankText line = true) (hlists : Lists lines airlines) :
      Lists (line :: lines) airlines
  | airline {line : String} {lines : List String} {airline : Airline} {airlines : List Airline}
      (hholds : Holds line airline) (hlists : Lists lines airlines) :
      Lists (line :: lines) (airline :: airlines)

/-- What is wrong with a line, given its number and the airlines on the lines before it. -/
inductive Faulty (listed : List Airline) (number : Nat) : Option String → AirlineError → Prop
  | unreadable : Faulty listed number none .unreadable
  | malformed {line : String} (hblank : Text.isBlankText line = false)
      (hnone : ∀ airline, ¬ Holds line airline) :
      Faulty listed number (some line) (.malformedLine number (Text.trim line))
  | duplicate {line : String} {airline known : Airline} (hholds : Holds line airline)
      (hknown : firstNamed? listed airline.name = some known) :
      Faulty listed number (some line)
        (.duplicateName airline.name known.code airline.code)

/-- Whether some airlines have different names. -/
def DistinctNames (airlines : List Airline) : Prop :=
  (airlines.map (·.name)).Nodup

theorem distinctNames_concat_iff :
    DistinctNames (history ++ [airline]) ↔
      DistinctNames history ∧ firstNamed? history airline.name = none := by
  rw [firstNamed?_eq_none_iff, DistinctNames, DistinctNames, List.map_append, List.nodup_append]
  simp only [List.map_cons, List.map_nil, List.nodup_singleton, List.mem_singleton, true_and]
  refine and_congr_right fun _ => ⟨fun hother hmem => hother _ hmem _ rfl rfl, ?_⟩
  rintro hmem name hname _ rfl rfl
  exact hmem hname

theorem DistinctNames.of_append (hdistinct : DistinctNames (history ++ airlines)) :
    DistinctNames history := by
  rw [DistinctNames, List.map_append] at hdistinct
  exact hdistinct.of_append_left

theorem find?_ofAttempts (history : List Airline) (name : String) :
    (ofAttempts history).find? name = firstNamed? history name :=
  (tracks_ofAttempts history).found name

variable {line : String} {before lines : List String} {fault : AirlineError}

theorem readLine_of_blank (hblank : Text.isBlankText line = true) :
    readLine number line = .ok none := by
  rw [readLine, Text.words_eq_nil_iff.mpr hblank]

theorem readLine_of_holds (hholds : Holds line airline) :
    readLine number line = .ok (some airline) := by
  rw [readLine, hholds]

theorem readLine_of_malformed (hblank : Text.isBlankText line = false)
    (hnone : ∀ airline, ¬ Holds line airline) :
    readLine number line = .error (.malformedLine number (Text.trim line)) := by
  unfold readLine
  split
  · next hwords =>
      rw [Text.words_eq_nil_iff, hblank] at hwords
      cases hwords
  · next code name hwords => exact absurd hwords (hnone ⟨code, name⟩)
  · rfl

theorem add_length_cons {α : Type} (number : Nat) (first : α) (rest : List α) :
    number + (first :: rest).length = number + 1 + rest.length := by
  rw [List.length_cons]
  omega

/-- Lines without a fault are worked off by inserting their airlines. -/
theorem readLines_append (history : List Airline) (number : Nat) (hlists : Lists before airlines)
    (hdistinct : DistinctNames (history ++ airlines)) (rest : List (Option String)) :
    readLines (ofAttempts history) number (before.map some ++ rest) =
      readLines (ofAttempts (history ++ airlines)) (number + before.length) rest := by
  induction hlists generalizing history number with
  | nil => simp
  | @blank line lines airlines hblank _ ih =>
      simp only [List.map_cons, List.cons_append, readLines, readLine_of_blank hblank]
      rw [ih _ _ hdistinct, add_length_cons]
  | @airline line lines airline airlines hholds _ ih =>
      rw [List.append_cons] at hdistinct
      have hnew : (ofAttempts history).find? airline.name = none := by
        rw [find?_ofAttempts]
        exact (distinctNames_concat_iff.mp hdistinct.of_append).2
      have hgrown : (ofAttempts history).grow airline = ofAttempts (history ++ [airline]) := by
        rw [ofAttempts_concat, attempt_of_none hnew]
      simp only [List.map_cons, List.cons_append, readLines, readLine_of_holds hholds,
        insert_of_none hnew, hgrown]
      rw [ih _ _ hdistinct, add_length_cons, ← List.append_cons]

/-- A line at fault ends the reading. -/
theorem readLines_of_faulty {line : Option String} (hfaulty : Faulty history number line fault)
    (rest : List (Option String)) :
    readLines (ofAttempts history) number (line :: rest) = .error fault := by
  cases hfaulty with
  | unreadable => rfl
  | malformed hblank hnone => simp only [readLines, readLine_of_malformed hblank hnone]
  | duplicate hholds hknown =>
      rw [← find?_ofAttempts] at hknown
      simp only [readLines, readLine_of_holds hholds, insert_of_some hknown]

/-- A line is blank, holds an airline with a new name, or is at fault. -/
theorem line_cases (listed : List Airline) (number : Nat) (line : Option String) :
    (∃ text, line = some text ∧ Text.isBlankText text = true) ∨
      (∃ text airline, line = some text ∧ Holds text airline ∧
        firstNamed? listed airline.name = none) ∨
      ∃ fault, Faulty listed number line fault := by
  cases line with
  | none => exact .inr (.inr ⟨_, .unreadable⟩)
  | some text =>
      cases hblank : Text.isBlankText text with
      | true => exact .inl ⟨text, rfl, hblank⟩
      | false =>
          by_cases hholds : ∃ airline, Holds text airline
          · obtain ⟨airline, hholds⟩ := hholds
            cases hknown : firstNamed? listed airline.name with
            | none => exact .inr (.inl ⟨text, airline, rfl, hholds, hknown⟩)
            | some known => exact .inr (.inr ⟨_, .duplicate hholds hknown⟩)
          · exact .inr (.inr ⟨_, .malformed hblank (not_exists.mp hholds)⟩)

/-- Some lines hold airlines with new names, or one of them is the first at fault. -/
theorem exists_lists_or_faulty (history : List Airline) (hdistinct : DistinctNames history)
    (number : Nat) (lines : List (Option String)) :
    (∃ texts airlines, lines = texts.map some ∧ Lists texts airlines ∧
        DistinctNames (history ++ airlines)) ∨
      ∃ before line after airlines fault, lines = before.map some ++ line :: after ∧
        Lists before airlines ∧ DistinctNames (history ++ airlines) ∧
        Faulty (history ++ airlines) (number + before.length) line fault := by
  induction lines generalizing history number with
  | nil => exact .inl ⟨[], [], rfl, .nil, by simpa using hdistinct⟩
  | cons line lines ih =>
      -- a line without a fault is put in front of what is said of the others
      have hextend : ∀ text found,
          (∀ {texts airlines}, Lists texts airlines → Lists (text :: texts) (found ++ airlines)) →
          DistinctNames (history ++ found) →
          (∃ texts airlines, some text :: lines = texts.map some ∧ Lists texts airlines ∧
              DistinctNames (history ++ airlines)) ∨
            ∃ before line after airlines fault,
              some text :: lines = before.map some ++ line :: after ∧
              Lists before airlines ∧ DistinctNames (history ++ airlines) ∧
              Faulty (history ++ airlines) (number + before.length) line fault := by
        intro text found hfirst hfound
        rcases ih _ hfound (number + 1) with ⟨texts, airlines, rfl, hlists, hnames⟩ |
          ⟨before, line, after, airlines, fault, rfl, hlists, hnames, hfaulty⟩
        · rw [List.append_assoc] at hnames
          exact .inl ⟨text :: texts, _, rfl, hfirst hlists, hnames⟩
        · rw [← add_length_cons _ text, List.append_assoc] at hfaulty
          rw [List.append_assoc] at hnames
          exact .inr ⟨text :: before, line, after, _, fault, rfl, hfirst hlists, hnames, hfaulty⟩
      rcases line_cases history number line with ⟨text, rfl, hblank⟩ |
        ⟨text, airline, rfl, hholds, hnew⟩ | ⟨fault, hfaulty⟩
      · exact hextend text [] (.blank hblank) (by simpa using hdistinct)
      · exact hextend text [airline] (.airline hholds)
          (distinctNames_concat_iff.mpr ⟨hdistinct, hnew⟩)
      · exact .inr ⟨[], line, lines, [], fault, rfl, .nil, by simpa using hdistinct,
          by simpa using hfaulty⟩

/-! ## Files -/

variable {bytes : ByteArray}

/-- A file without faults is read by inserting its airlines. -/
theorem ofBytes_of_lists (hlines : Text.lines bytes = lines.map some)
    (hlists : Lists lines airlines) (hdistinct : DistinctNames airlines) :
    ofBytes bytes = .ok (ofAttempts airlines) := by
  have hread := readLines_append [] 1 hlists hdistinct []
  rw [List.append_nil, ← hlines] at hread
  exact hread

/-- A file is refused for its first line at fault. -/
theorem ofBytes_of_faulty {line : Option String} {after : List (Option String)}
    (hlines : Text.lines bytes = before.map some ++ line :: after)
    (hlists : Lists before airlines) (hdistinct : DistinctNames airlines)
    (hfaulty : Faulty airlines (before.length + 1) line fault) : ofBytes bytes = .error fault := by
  have hread := readLines_append [] 1 hlists hdistinct (line :: after)
  rw [← hlines, List.nil_append, Nat.add_comm, readLines_of_faulty hfaulty] at hread
  exact hread

theorem ofBytes_eq_ok_iff :
    ofBytes bytes = .ok table ↔ ∃ lines airlines, Text.lines bytes = lines.map some ∧
      Lists lines airlines ∧ DistinctNames airlines ∧ table = ofAttempts airlines := by
  constructor
  · intro hread
    rcases exists_lists_or_faulty [] List.nodup_nil 1 (Text.lines bytes) with
      ⟨lines, airlines, hlines, hlists, hdistinct⟩ |
      ⟨before, line, after, airlines, fault, hlines, hlists, hdistinct, hfaulty⟩
    · rw [ofBytes_of_lists hlines hlists hdistinct] at hread
      exact ⟨lines, airlines, hlines, hlists, hdistinct, (Except.ok.inj hread).symm⟩
    · rw [Nat.add_comm] at hfaulty
      rw [ofBytes_of_faulty hlines hlists hdistinct hfaulty] at hread
      cases hread
  · rintro ⟨lines, airlines, hlines, hlists, hdistinct, rfl⟩
    exact ofBytes_of_lists hlines hlists hdistinct

theorem ofBytes_eq_error_iff :
    ofBytes bytes = .error fault ↔ ∃ before line after airlines,
      Text.lines bytes = before.map some ++ line :: after ∧ Lists before airlines ∧
        DistinctNames airlines ∧ Faulty airlines (before.length + 1) line fault := by
  constructor
  · intro hread
    rcases exists_lists_or_faulty [] List.nodup_nil 1 (Text.lines bytes) with
      ⟨lines, airlines, hlines, hlists, hdistinct⟩ |
      ⟨before, line, after, airlines, other, hlines, hlists, hdistinct, hfaulty⟩
    · rw [ofBytes_of_lists hlines hlists hdistinct] at hread
      cases hread
    · rw [Nat.add_comm] at hfaulty
      rw [ofBytes_of_faulty hlines hlists hdistinct hfaulty] at hread
      obtain rfl := Except.error.inj hread
      exact ⟨before, line, after, airlines, hlines, hlists, hdistinct, hfaulty⟩
  · rintro ⟨before, line, after, airlines, hlines, hlists, hdistinct, hfaulty⟩
    exact ofBytes_of_faulty hlines hlists hdistinct hfaulty

/-- Of each name a table keeps the first insertion, behind whatever insertions, refused ones
included: its names are distinct, its index leads from the listed names to their own entries,
a name keeps its designator for good, and another insertion of it is refused with the first
designator and changes nothing.  A file is read by inserting the airlines on its lines, blank ones
apart, and if one of its lines is malformed or lists a name again, the first such line is what it is
refused for. -/
theorem keeps_first_insertions :
    (∀ history : List Airline,
      (ofAttempts history).names.Nodup ∧
      (∀ (name : String) (i : Nat), (ofAttempts history).index[name]? = some i ↔
        (ofAttempts history).names[i]? = some name) ∧
      (∀ name, (ofAttempts history).contains name = true ↔ name ∈ history.map (·.name)) ∧
      (∀ name, (ofAttempts history).codeFor? name =
        (firstNamed? history name).map (·.code)) ∧
      (∀ name code more, (ofAttempts history).codeFor? name = some code →
        (ofAttempts (history ++ more)).codeFor? name = some code) ∧
      (∀ airline known, firstNamed? history airline.name = some known →
        (ofAttempts history).insert airline =
            .error (.duplicateName airline.name known.code airline.code) ∧
          ofAttempts (history ++ [airline]) = ofAttempts history) ∧
      ∀ airline, firstNamed? history airline.name = none →
        (ofAttempts history).insert airline = .ok (ofAttempts (history ++ [airline])) ∧
          (ofAttempts (history ++ [airline])).entries =
            (ofAttempts history).entries.push airline) ∧
    ∀ bytes : ByteArray,
      (∀ table, ofBytes bytes = .ok table ↔ ∃ lines airlines,
        Text.lines bytes = lines.map some ∧ Lists lines airlines ∧ DistinctNames airlines ∧
          table = ofAttempts airlines) ∧
      ∀ fault, ofBytes bytes = .error fault ↔ ∃ before line after airlines,
        Text.lines bytes = before.map some ++ line :: after ∧ Lists before airlines ∧
          DistinctNames airlines ∧ Faulty airlines (before.length + 1) line fault := by
  refine ⟨fun history => ?_, fun bytes => ?_⟩
  · have htracks := tracks_ofAttempts history
    refine ⟨htracks.nodup_names, htracks.index, fun name => ?_, htracks.codeFor?_eq,
      fun name code more hcode => ?_, fun airline known hknown => ?_, fun airline hnew => ?_⟩
    · rw [htracks.contains_iff, htracks.mem_names_iff]
    · rw [htracks.codeFor?_eq] at hcode
      obtain ⟨known, hknown, rfl⟩ := Option.map_eq_some_iff.mp hcode
      rw [(tracks_ofAttempts _).codeFor?_eq, firstNamed?_append_of_some hknown, Option.map_some]
    · rw [← find?_ofAttempts] at hknown
      exact ⟨insert_of_some hknown, by rw [ofAttempts_concat, attempt_of_some hknown]⟩
    · rw [← find?_ofAttempts] at hnew
      rw [ofAttempts_concat, attempt_of_none hnew]
      exact ⟨insert_of_none hnew, rfl⟩
  · exact ⟨fun _ => ofBytes_eq_ok_iff, fun _ => ofBytes_eq_error_iff⟩

end Phraseology.AirlineTable
