import Phraseology.Proofs.Tag.Plain

/-!
# Plain tags as they are read

A repair takes a word for a tag only if the whole word is one.  Of the plain tags it
reads every one, an opening tag with the name between its angles
(`OpenName.openAnyTagName?_opener`) and a closing tag as the one for a name
(`IsName.closeTagName?_closing`), and of the closing tags it reads no others
(`exists_isName_of_closeTagName?`).  No word is read as both.

A search takes more words for tags, but reads the same names in plain ones
(`OpenName.tagName?_opener`).
-/

namespace Phraseology.Tag

instance (name : String) : Decidable (IsName name) :=
  decidable_of_iff (name.toList ≠ [] ∧ name.toList.all isNameChar = true)
    ⟨fun ⟨hnonempty, hletters⟩ => ⟨hnonempty, List.all_eq_true.mp hletters⟩,
      fun hname => ⟨hname.nonempty, List.all_eq_true.mpr hname.letters⟩⟩

/-- The name in an opening tag: that of a plain one, or a command with its type. -/
inductive OpenName : String → Prop
  | plain {name : String} (named : IsName name) : OpenName name
  | command {type : String} (named : IsName type) : OpenName ("command=\"" ++ type ++ "\"")

/-- The opening tag with a name. -/
def opener (name : String) : String :=
  "<" ++ name ++ ">"

/-- The opening tag of a command. -/
def commandOpener (type : String) : String :=
  "<command=\"" ++ type ++ "\">"

variable {word name type : String} {cs : List Char} {allowed : Char → Bool}

theorem opener_command (type : String) :
    opener ("command=\"" ++ type ++ "\"") = commandOpener type := by
  simp [opener, commandOpener, ← String.toList_inj]

/-! ## Names between angles -/

theorem takeWhile_append_angle (hcs : ∀ c ∈ cs, allowed c = true) (hangle : allowed '>' = false)
    (rest : List Char) :
    (cs ++ '>' :: rest).takeWhile allowed = cs ∧
      (cs ++ '>' :: rest).dropWhile allowed = '>' :: rest := by
  rw [List.takeWhile_append_of_pos hcs, List.dropWhile_append_of_pos hcs]
  simp [hangle]

theorem enclosed?_append (hnonempty : cs ≠ []) (hcs : ∀ c ∈ cs, allowed c = true)
    (hangle : allowed '>' = false) : enclosed? allowed (cs ++ ['>']) = some (String.ofList cs) := by
  obtain ⟨htake, hdrop⟩ := takeWhile_append_angle hcs hangle []
  simp [enclosed?, htake, hdrop, hnonempty]

theorem enclosed?_eq_some (hname : enclosed? allowed cs = some name) :
    cs = name.toList ++ ['>'] ∧ name.toList ≠ [] ∧ ∀ c ∈ name.toList, allowed c = true := by
  unfold enclosed? at hname
  simp only at hname
  split at hname
  · next hcond =>
      simp only [Bool.and_eq_true, beq_iff_eq, Bool.not_eq_true', List.isEmpty_eq_false_iff]
        at hcond
      obtain rfl := Option.some.inj hname
      rw [String.toList_ofList]
      refine ⟨?_, hcond.2, fun c hc => List.all_eq_true.mp List.all_takeWhile c hc⟩
      rw [← hcond.1, List.takeWhile_append_dropWhile]
  · cases hname

/-! ## Opening tags -/

theorem openAnyTagName?_eq_some (hname : openAnyTagName? word = some name) :
    word = opener name ∧ name.toList ≠ [] ∧
      ∀ c ∈ name.toList, isAttributedNameChar c = true := by
  unfold openAnyTagName? at hname
  split at hname
  · next rest hword =>
      obtain ⟨hrest, hnonempty, hletters⟩ := enclosed?_eq_some hname
      refine ⟨?_, hnonempty, hletters⟩
      rw [← String.toList_inj, hword, hrest]
      simp [opener]
  · cases hname

theorem eq_of_openTagName? (hname : openTagName? word = some name) : word = opener name := by
  unfold openTagName? at hname
  split at hname
  · next rest hword =>
      rw [← String.toList_inj, hword, (enclosed?_eq_some hname).1]
      simp [opener]
  · cases hname

theorem isName_of_openTagName? (hname : openTagName? word = some name) : IsName name := by
  unfold openTagName? at hname
  split at hname
  · obtain ⟨-, hnonempty, hletters⟩ := enclosed?_eq_some hname
    exact ⟨hnonempty, hletters⟩
  · cases hname

theorem openAnyTagName?_opener (hnonempty : name.toList ≠ [])
    (hname : ∀ c ∈ name.toList, isAttributedNameChar c = true) :
    openAnyTagName? (opener name) = some name := by
  have hchars : (opener name).toList = '<' :: (name.toList ++ ['>']) := by simp [opener]
  unfold openAnyTagName?
  rw [hchars]
  simpa using enclosed?_append hnonempty hname (by decide)

theorem isAttributedNameChar_of_isNameChar {c : Char} (hname : isNameChar c = true) :
    isAttributedNameChar c = true := by
  simp [isAttributedNameChar, hname]

theorem OpenName.openAnyTagName?_opener (hname : OpenName name) :
    openAnyTagName? (opener name) = some name := by
  cases hname with
  | plain hnamed =>
      exact Tag.openAnyTagName?_opener hnamed.nonempty fun c hc =>
        isAttributedNameChar_of_isNameChar (hnamed.letters c hc)
  | @command type hnamed =>
      refine Tag.openAnyTagName?_opener (by simp) fun c hc => ?_
      rw [String.toList_append, String.toList_append, List.mem_append, List.mem_append] at hc
      rcases hc with (hc | hc) | hc
      · have hkeyword : "command=\"".toList.all isAttributedNameChar = true := by decide
        exact List.all_eq_true.mp hkeyword c hc
      · exact isAttributedNameChar_of_isNameChar (hnamed.letters c hc)
      · have hquote : "\"".toList.all isAttributedNameChar = true := by decide
        exact List.all_eq_true.mp hquote c hc

/-- An opening tag with a name of letters does not open a command of some type. -/
theorem IsName.isCommandOpen_opener (hname : IsName name) :
    isCommandOpen (opener name) = false := by
  have hchars : (opener name).toList = '<' :: (name.toList ++ ['>']) := by simp [opener]
  unfold isCommandOpen commandType? dropStart?
  split
  · next hprefix =>
      exfalso
      obtain ⟨rest, hrest⟩ := List.isPrefixOf_iff_prefix.mp hprefix
      have hmem : '=' ∈ (opener name).toList := by
        rw [← hrest]
        simp
      rw [hchars, List.mem_cons, List.mem_append, List.mem_singleton] at hmem
      rcases hmem with h | h | h
      · exact absurd h (by decide)
      · exact absurd (hname.letters '=' h) (by decide)
      · exact absurd h (by decide)
  · rfl

theorem IsName.isCommandOpen_command (hname : IsName type) :
    isCommandOpen (commandOpener type) = true := by
  have hchars : (commandOpener type).toList =
      "<command=\"".toList ++ (type.toList ++ '"' :: ['>']) := by
    simp [commandOpener]
  have htake : (type.toList ++ '"' :: ['>']).takeWhile isNameChar = type.toList := by
    rw [List.takeWhile_append_of_pos hname.letters]
    simp [isNameChar]
  have hdrop : (type.toList ++ '"' :: ['>']).dropWhile isNameChar = ['"', '>'] := by
    rw [List.dropWhile_append_of_pos hname.letters]
    simp [isNameChar]
  have hstart : dropStart? "<command=\"".toList (commandOpener type).toList =
      some (type.toList ++ '"' :: ['>']) := by
    rw [hchars, dropStart?, if_pos (List.isPrefixOf_iff_prefix.mpr (List.prefix_append ..)),
      List.drop_left]
  unfold isCommandOpen commandType?
  rw [hstart, Option.bind_some]
  simp only [htake, hdrop]
  simp [hname.nonempty]

/-! ## Closing tags -/

theorem exists_isName_of_closeTagName? (hcloses : (closeTagName? word).isSome) :
    ∃ name, IsName name ∧ word = "</" ++ name ++ ">" := by
  obtain ⟨name, hname⟩ := Option.isSome_iff_exists.mp hcloses
  unfold closeTagName? at hname
  split at hname
  · next rest hword =>
      obtain ⟨hrest, hnonempty, hletters⟩ := enclosed?_eq_some hname
      refine ⟨name, ⟨hnonempty, hletters⟩, ?_⟩
      rw [← String.toList_inj, hword, hrest]
      simp
  · cases hname

theorem IsName.closeTagName?_closing (hname : IsName name) :
    closeTagName? ("</" ++ name ++ ">") = some name := by
  have hchars : ("</" ++ name ++ ">").toList = '<' :: '/' :: (name.toList ++ ['>']) := by simp
  unfold closeTagName?
  rw [hchars]
  simpa using enclosed?_append hname.nonempty hname.letters (by decide)

theorem openAnyTagName?_closing (name : String) : openAnyTagName? ("</" ++ name ++ ">") = none := by
  have hchars : ("</" ++ name ++ ">").toList = '<' :: '/' :: (name.toList ++ ['>']) := by simp
  unfold openAnyTagName?
  rw [hchars]
  simp [enclosed?, isAttributedNameChar, isNameChar]

/-- Commands of all types are closed by the same tag. -/
theorem closingTag_command (type : String) :
    closingTag ("command=\"" ++ type ++ "\"") = commandClose := by
  simp [closingTag, namesCommand, List.isPrefixOf]

/-- The closing tag for a name that opens is a plain tag. -/
theorem OpenName.closingTag_eq (hname : OpenName name) :
    ∃ base, IsName base ∧ closingTag name = "</" ++ base ++ ">" := by
  cases hname with
  | plain hnamed => exact ⟨name, hnamed, by rw [Tag.closingTag_eq, hnamed.baseName_eq]⟩
  | @command type hnamed =>
      exact ⟨"command", ⟨by decide, List.all_eq_true.mp (by decide)⟩, closingTag_command type⟩

/-- A plain tag that is read as opening is one. -/
theorem Plain.exists_openName (hplain : Plain word) (hopens : (openAnyTagName? word).isSome) :
    ∃ name, OpenName name ∧ word = opener name := by
  cases hplain with
  | opening hname => exact ⟨_, .plain hname, rfl⟩
  | closing hname =>
      rw [openAnyTagName?_closing] at hopens
      cases hopens
  | @command type hname => exact ⟨_, .command hname, (opener_command type).symm⟩

/-! ## What a search reads -/

theorem isInside_of_isAttributedNameChar {c : Char} (hname : isAttributedNameChar c = true) :
    isInside c = true := by
  simp [isInside, hname]

theorem isSome_tagName?_of_closeTagName? (hcloses : (closeTagName? word).isSome) :
    (tagName? word).isSome := by
  obtain ⟨name, hname, rfl⟩ := exists_isName_of_closeTagName? hcloses
  rw [hname.tagName?_closing]
  rfl

/-- The name between the angles of an opening tag does not start like a closing one. -/
theorem exists_cons_of_openAnyTagName? (hopens : openAnyTagName? word = some name) :
    ∃ c cs, name.toList = c :: cs ∧ c ≠ '/' ∧ ∀ d ∈ name.toList, isInside d = true := by
  obtain ⟨-, hnonempty, hletters⟩ := openAnyTagName?_eq_some hopens
  obtain ⟨c, cs, hcs⟩ := List.exists_cons_of_ne_nil hnonempty
  refine ⟨c, cs, hcs, ?_, fun d hd => isInside_of_isAttributedNameChar (hletters d hd)⟩
  rintro rfl
  exact absurd (hletters '/' (by simp [hcs])) (by decide)

/-- At the start of a word a search finds what a repair takes for an opening tag. -/
theorem tagName?_append {rest : List Char} (hopens : openAnyTagName? (opener name) = some name)
    (hword : word.toList = (opener name).toList ++ rest) :
    tagName? word = some name ∧ isClosing word = false := by
  obtain ⟨c, cs, hcs, hslash, hinside⟩ := exists_cons_of_openAnyTagName? hopens
  have hchars : word.toList = '<' :: (name.toList ++ '>' :: rest) := by simp [hword, opener]
  constructor
  · have htag : tagNameChars? ('<' :: (name.toList ++ '>' :: rest)) = some name.toList := by
      rw [tagNameChars?, nameUntilAngle?_append (by simp [hcs]) hinside]
      intro more hmore
      rw [hcs] at hmore
      exact hslash (List.cons.inj hmore).1
    rw [tagName?, hchars, htag]
    simp
  · rw [isClosing, hchars, hcs]
    simp [List.isPrefixOf, hslash.symm]

/-- What a repair takes for an opening tag is one for a search. -/
theorem tagName?_of_openAnyTagName? (hopens : openAnyTagName? word = some name) :
    tagName? word = some name ∧ isClosing word = false := by
  obtain ⟨rfl, -, -⟩ := openAnyTagName?_eq_some hopens
  exact tagName?_append hopens (List.append_nil _).symm

theorem isSome_tagName?_of_openAnyTagName? (hopens : openAnyTagName? word = some name) :
    (tagName? word).isSome :=
  Option.isSome_of_eq_some (tagName?_of_openAnyTagName? hopens).1

theorem OpenName.tagName?_opener (hname : OpenName name) :
    tagName? (opener name) = some name ∧ isClosing (opener name) = false :=
  tagName?_of_openAnyTagName? hname.openAnyTagName?_opener

/-- A word that opens a command starts with the opening tag of one. -/
theorem exists_commandOpener_append (hcommand : isCommandOpen word = true) :
    ∃ type rest, IsName type ∧ word.toList = (commandOpener type).toList ++ rest := by
  obtain ⟨found, hfound⟩ := Option.isSome_iff_exists.mp hcommand
  obtain ⟨behind, hstart, htype⟩ := Option.bind_eq_some_iff.mp hfound
  unfold dropStart? at hstart
  split at hstart
  · next hprefix =>
      obtain ⟨tail, htail⟩ := List.isPrefixOf_iff_prefix.mp hprefix
      simp only at htype
      split at htype
      · next rest hrest =>
          rw [← htail, List.drop_left] at hstart
          obtain rfl := Option.some.inj hstart
          have hnonempty : tail.takeWhile isNameChar ≠ [] := by
            intro hempty
            simp [hempty] at htype
          have hcut : tail.takeWhile isNameChar ++ '"' :: '>' :: rest = tail := by
            rw [← hrest, List.takeWhile_append_dropWhile]
          refine ⟨String.ofList (tail.takeWhile isNameChar), rest, ⟨?_, ?_⟩, ?_⟩
          · rwa [String.toList_ofList]
          · rw [String.toList_ofList]
            exact fun c hc => List.all_eq_true.mp List.all_takeWhile c hc
          · calc word.toList = "<command=\"".toList ++ tail := htail.symm
              _ = "<command=\"".toList ++ (tail.takeWhile isNameChar ++ '"' :: '>' :: rest) := by
                rw [hcut]
              _ = (commandOpener (String.ofList (tail.takeWhile isNameChar))).toList ++ rest := by
                simp [commandOpener]
      · cases htype
  · cases hstart

/-- A word that opens a command has a command with its type for its name. -/
theorem exists_tagName?_of_isCommandOpen (hcommand : isCommandOpen word = true) :
    ∃ type, tagName? word = some ("command=\"" ++ type ++ "\"") ∧ isClosing word = false := by
  obtain ⟨type, rest, htype, hword⟩ := exists_commandOpener_append hcommand
  rw [← opener_command] at hword
  exact ⟨type, tagName?_append (OpenName.command htype).openAnyTagName?_opener hword⟩

/-- A plain tag that opens is the opening tag with its name. -/
theorem Plain.openName_of_opening (hplain : Plain word) (hname : tagName? word = some name)
    (hopens : isClosing word = false) : OpenName name ∧ word = opener name := by
  have hopener : ∀ {found : String}, OpenName found → word = opener found →
      OpenName name ∧ word = opener name := by
    rintro found hfound rfl
    rw [hfound.tagName?_opener.1] at hname
    obtain rfl := Option.some.inj hname
    exact ⟨hfound, rfl⟩
  cases hplain with
  | opening hnamed => exact hopener (.plain hnamed) rfl
  | @command type hnamed => exact hopener (.command hnamed) (opener_command type).symm
  | @closing base hnamed =>
      rw [← hnamed.baseName_eq, ← closingTag_eq, isClosing_closingTag] at hopens
      cases hopens

theorem opener_injective : Function.Injective opener := by
  intro first second hsame
  simpa [opener, ← String.toList_inj] using hsame

/-- No tag is closed by the tag that opens it. -/
theorem opener_ne_closingTag (name : String) : opener name ≠ closingTag name := by
  intro hsame
  by_cases hcommand : namesCommand name = true
  · have hclosing : closingTag name = commandClose := by rw [closingTag, if_pos hcommand]
    rw [hclosing, opener, ← String.toList_inj] at hsame
    obtain ⟨rest, hrest⟩ := List.isPrefixOf_iff_prefix.mp hcommand
    rw [String.toList_append, String.toList_append, ← hrest] at hsame
    simp [commandClose] at hsame
  · have hclosing : closingTag name = "</" ++ name ++ ">" := by rw [closingTag, if_neg hcommand]
    have hlength := congrArg (·.toList.length) (hsame.trans hclosing)
    simp [opener] at hlength

/-- Only callsigns are closed by the tag that closes a callsign. -/
theorem OpenName.closingTag_eq_callsignClose_iff (hname : OpenName name) :
    closingTag name = callsignClose ↔ name = "callsign" := by
  constructor
  · intro hclosing
    cases hname with
    | plain hnamed =>
        rw [Tag.closingTag_eq, hnamed.baseName_eq] at hclosing
        have hcallsign : "</" ++ name ++ ">" = "</" ++ "callsign" ++ ">" := hclosing
        have hchars : name.toList ++ ['>'] = "callsign".toList ++ ['>'] := by
          simpa [← String.toList_inj] using hcallsign
        exact String.toList_inj.mp (List.append_cancel_right hchars)
    | @command type _ =>
        rw [closingTag_command] at hclosing
        exact absurd hclosing (by decide)
  · rintro rfl
    decide

/-! ## Several tokens -/

/-- The tags among some tokens are plain. -/
def AllPlain (tokens : List String) : Prop :=
  ∀ token ∈ tokens, (tagName? token).isSome → Plain token

namespace AllPlain

variable {first second tokens names : List String}

theorem append (hfirst : AllPlain first) (hsecond : AllPlain second) :
    AllPlain (first ++ second) := by
  intro token htoken
  rcases List.mem_append.mp htoken with htoken | htoken
  · exact hfirst token htoken
  · exact hsecond token htoken

theorem of_untagged (hwords : ∀ token ∈ tokens, tagName? token = none) : AllPlain tokens := by
  intro token htoken htag
  rw [hwords token htoken] at htag
  cases htag

theorem map_closingTag (hnames : ∀ name ∈ names, OpenName name) :
    AllPlain (names.map closingTag) := by
  intro token htoken _
  obtain ⟨name, hname, rfl⟩ := List.mem_map.mp htoken
  obtain ⟨base, hbase, hclosing⟩ := (hnames name hname).closingTag_eq
  rw [hclosing]
  exact .closing hbase

end AllPlain

end Phraseology.Tag
