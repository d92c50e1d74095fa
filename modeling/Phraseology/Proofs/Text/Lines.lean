import Phraseology.Proofs.Text.Words
import Phraseology.Text.Lines

/-!
# The lines of a text

A stream of bytes is cut into lines before it is decoded.  In UTF-8 the byte of a line feed stands
for a line feed wherever it is met, and so does the byte of a carriage return, as all bytes of
longer characters are large (`eq_of_mem_utf8EncodeChar`).  So the lines of an encoded text are the
encoded lines of the text, and each of them can be decoded again (`lines_toUTF8`).

What is written line by line is read back as it was (`textLines_join`), unless a line feed is part
of it or a carriage return ends it.
-/

namespace Phraseology.Text

/-! ## Lines of characters -/

/-- A line without the carriage return that stood before its line feed. -/
def dropReturnChar (line : List Char) : List Char :=
  if line.getLast? = some '\r' then line.dropLast else line

/-- The lines among the pieces of a text between line feeds. -/
def textLinesOfPieces : List (List Char) → List (List Char)
  | [] => []
  | [last] => if last.isEmpty then [] else [last]
  | piece :: more => dropReturnChar piece :: textLinesOfPieces more

/-- The lines of a text.  A line ends with a line feed, which a carriage return may precede;
characters after the last line feed form a line of their own, in which a carriage return is kept. -/
def textLines (text : String) : List String :=
  (textLinesOfPieces (pieces (· == '\n') text.toList)).map String.ofList

/-- Whether a text can be written on a line and read back from it. -/
structure IsLine (text : String) : Prop where
  feed : '\n' ∉ text.toList
  carriage : text.toList.getLast? ≠ some '\r'

theorem newline_notMem_append {text more : String} (htext : '\n' ∉ text.toList)
    (hmore : '\n' ∉ more.toList) : '\n' ∉ (text ++ more).toList := by
  rw [String.toList_append, List.mem_append, not_or]
  exact ⟨htext, hmore⟩

theorem newline_notMem_intercalate {separator : String} (hseparator : '\n' ∉ separator.toList)
    {texts : List String} (htexts : ∀ text ∈ texts, '\n' ∉ text.toList) :
    '\n' ∉ (separator.intercalate texts).toList := by
  induction texts with
  | nil => simp
  | cons first texts ih =>
      obtain ⟨hfirst, htexts⟩ := List.forall_mem_cons.mp htexts
      cases texts with
      | nil => simpa using hfirst
      | cons second texts =>
          rw [String.intercalate_cons_cons]
          exact newline_notMem_append (newline_notMem_append hfirst hseparator) (ih htexts)

/-- Texts that are written on lines of their own are the lines of what is written. -/
theorem textLines_join {written : List String} (hlines : ∀ text ∈ written, IsLine text) :
    textLines (String.join (written.map (· ++ "\n"))) = written := by
  induction written with
  | nil => rfl
  | cons text more ih =>
      obtain ⟨hline, hmore⟩ := List.forall_mem_cons.mp hlines
      have hback := ih hmore
      have hnone : ∀ c ∈ text.toList, (c == '\n') = false := by
        intro c hc
        rw [beq_eq_false_iff_ne]
        rintro rfl
        exact hline.feed hc
      have hdrop : dropReturnChar text.toList = text.toList := if_neg hline.carriage
      rw [textLines, List.map_cons, String.join_cons, String.append_assoc, String.toList_append,
        String.toList_append]
      have hfeed : "\n".toList = ['\n'] := by decide
      rw [hfeed, List.singleton_append, pieces_append_cons (by decide), pieces_of_none hnone,
        List.singleton_append]
      cases hpieces : pieces (· == '\n') (String.join (more.map (· ++ "\n"))).toList with
      | nil => exact absurd hpieces (pieces_ne_nil _ _)
      | cons piece pieces =>
          rw [textLines, hpieces] at hback
          rw [textLinesOfPieces, hdrop, List.map_cons, String.ofList_toList, hback]
          simp

/-! ## Bytes of characters -/

variable {c : Char} {cs rest : List Char} {b : UInt8}

/-- A small byte stands for the character with its number only. -/
theorem eq_of_mem_utf8EncodeChar (hmem : b ∈ String.utf8EncodeChar c) (hsmall : b.toNat < 0x80) :
    c.toNat = b.toNat ∧ String.utf8EncodeChar c = [b] := by
  have hval : c.val.toNat = c.toNat := rfl
  simp only [String.utf8EncodeChar, hval] at hmem ⊢
  split at hmem
  · next hascii =>
      obtain rfl := List.mem_singleton.mp hmem
      rw [if_pos hascii]
      exact ⟨by rw [UInt8.toNat_ofNat']; omega, rfl⟩
  · -- all bytes of longer characters are large
    exfalso
    split at hmem
    · simp only [List.mem_cons, List.not_mem_nil, or_false] at hmem
      rcases hmem with rfl | rfl
      all_goals rw [UInt8.toNat_ofNat'] at hsmall; omega
    · split at hmem
      · simp only [List.mem_cons, List.not_mem_nil, or_false] at hmem
        rcases hmem with rfl | rfl | rfl
        all_goals rw [UInt8.toNat_ofNat'] at hsmall; omega
      · simp only [List.mem_cons, List.not_mem_nil, or_false] at hmem
        rcases hmem with rfl | rfl | rfl | rfl
        all_goals rw [UInt8.toNat_ofNat'] at hsmall; omega

/-- The bytes of some characters. -/
def encode (cs : List Char) : List UInt8 :=
  cs.flatMap String.utf8EncodeChar

theorem encode_append (cs rest : List Char) : encode (cs ++ rest) = encode cs ++ encode rest :=
  List.flatMap_append ..

theorem encode_eq_nil_iff : encode cs = [] ↔ cs = [] := by
  rw [encode, List.flatMap_eq_nil_iff, List.eq_nil_iff_forall_not_mem]
  exact forall_congr' fun c => imp_congr_right fun _ => iff_false_intro String.utf8EncodeChar_ne_nil

theorem decode?_encode (cs : List Char) : decode? (encode cs) = some (String.ofList cs) := by
  have hbytes : (⟨(encode cs).toArray⟩ : ByteArray) = cs.utf8Encode := by
    apply ByteArray.ext
    apply Array.toList_inj.mp
    rw [List.utf8Encode, List.toList_data_toByteArray]
    rfl
  rw [decode?, hbytes, String.fromUTF8?, dif_pos ByteArray.isValidUTF8_utf8Encode]
  rfl

theorem toList_loop (bytes : ByteArray) (i : Nat) (before : List UInt8) :
    ByteArray.toList.loop bytes i before = before.reverse ++ bytes.data.toList.drop i := by
  fun_induction ByteArray.toList.loop bytes i before with
  | case1 i before hmore ih =>
      have hi : i < bytes.data.toList.length := by simpa using hmore
      rw [ih, List.drop_eq_getElem_cons hi]
      simp [ByteArray.get!, hmore]
  | case2 i before hend =>
      rw [List.drop_eq_nil_of_le (by simpa using Nat.le_of_not_lt hend), List.append_nil]

theorem toList_toUTF8 (text : String) : text.toUTF8.toList = encode text.toList := by
  have hbytes : text.toUTF8 = text.toList.utf8Encode := String.utf8Encode_toList.symm
  rw [ByteArray.toList, toList_loop, hbytes, List.utf8Encode, List.toList_data_toByteArray]
  rfl

/-! ## Lines of bytes -/

theorem pieces_append_of_none {α : Type} {separates : α → Bool} {front : List α}
    (hfront : ∀ a ∈ front, separates a = false) {rest piece : List α} {more : List (List α)}
    (hrest : pieces separates rest = piece :: more) :
    pieces separates (front ++ rest) = (front ++ piece) :: more := by
  induction front with
  | nil => exact hrest
  | cons a front ih =>
      obtain ⟨ha, hfront⟩ := List.forall_mem_cons.mp hfront
      rw [List.cons_append, pieces_cons, ha, ih hfront]
      rfl

/-- The bytes of a text are cut at line feeds where the text is. -/
theorem pieces_encode (cs : List Char) :
    pieces (· == (10 : UInt8)) (encode cs) = (pieces (· == '\n') cs).map encode := by
  induction cs with
  | nil => rfl
  | cons c cs ih =>
      have hencode : encode (c :: cs) = String.utf8EncodeChar c ++ encode cs := rfl
      rw [hencode]
      by_cases hc : c = '\n'
      · subst hc
        have hfeed : String.utf8EncodeChar '\n' = [10] := by decide
        rw [hfeed, List.singleton_append, pieces_cons, pieces_cons, ih]
        rfl
      · have hnone : ∀ b ∈ String.utf8EncodeChar c, (b == (10 : UInt8)) = false := by
          intro b hb
          rw [beq_eq_false_iff_ne]
          rintro rfl
          exact hc (Char.toNat_inj.mp (eq_of_mem_utf8EncodeChar hb (by decide)).1)
        cases hpieces : pieces (· == '\n') cs with
        | nil => exact absurd hpieces (pieces_ne_nil _ cs)
        | cons piece more =>
            rw [hpieces, List.map_cons] at ih
            rw [pieces_append_of_none hnone ih, pieces_cons, hpieces]
            simp [hc, consToFirst, encode]

theorem dropReturn_encode (cs : List Char) :
    dropReturn (encode cs) = encode (dropReturnChar cs) := by
  rcases List.eq_nil_or_concat cs with rfl | ⟨front, c, rfl⟩
  · rfl
  · rw [List.concat_eq_append, encode_append, dropReturnChar, List.getLast?_concat]
    have hlast : encode [c] = String.utf8EncodeChar c := List.flatMap_singleton ..
    by_cases hc : c = '\r'
    · subst hc
      have hreturn : String.utf8EncodeChar '\r' = [13] := by decide
      rw [hlast, hreturn, dropReturn, List.reverse_append]
      simp
    · rw [if_neg (by simpa using hc), encode_append, hlast, dropReturn, List.reverse_append]
      split
      · next more heq =>
          have hhead : (13 : UInt8) ∈ String.utf8EncodeChar c := by
            obtain ⟨b, bytes, hbytes⟩ := List.exists_cons_of_ne_nil
              (mt List.reverse_eq_nil_iff.mp (String.utf8EncodeChar_ne_nil (c := c)))
            rw [hbytes, List.cons_append] at heq
            have hb : b = 13 := (List.cons.inj heq).1
            rw [← List.mem_reverse, hbytes, hb]
            exact List.mem_cons_self
          exact absurd (Char.toNat_inj.mp (eq_of_mem_utf8EncodeChar hhead (by decide)).1) hc
      · rfl

theorem linesOfPieces_encode (found : List (List Char)) :
    linesOfPieces (found.map encode) = (textLinesOfPieces found).map encode := by
  induction found with
  | nil => rfl
  | cons piece more ih =>
      cases more with
      | nil =>
          have hempty : (encode piece).isEmpty = piece.isEmpty := by
            rw [Bool.eq_iff_iff, List.isEmpty_iff, List.isEmpty_iff, encode_eq_nil_iff]
          simp only [List.map_cons, List.map_nil, linesOfPieces, textLinesOfPieces, hempty]
          split <;> rfl
      | cons next more =>
          simp only [List.map_cons, linesOfPieces, textLinesOfPieces, dropReturn_encode]
          rw [← List.map_cons, ih]

/-- The lines of the bytes of a text are the lines of the text. -/
theorem lines_toUTF8 (text : String) : lines text.toUTF8 = (textLines text).map some := by
  have hdecode : decode? ∘ encode = some ∘ String.ofList := funext decode?_encode
  rw [lines, toList_toUTF8, pieces_encode, linesOfPieces_encode, List.map_map, hdecode, textLines,
    List.map_map]

end Phraseology.Text
