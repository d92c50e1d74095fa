/-!
# Blank characters and the words between them

A character is blank when it has the `White_Space` property.  Text is cut into
words at runs of blank characters, and `trim` takes the blank characters off
both ends.  The same cutting, at a class of separators of the caller's choice
and with empty pieces kept, is `pieces`.
-/

namespace Phraseology.Text

/-- The characters with the `White_Space` property. -/
def isBlank (c : Char) : Bool :=
  let n := c.toNat
  (0x9 ≤ n && n ≤ 0xD) || n == 0x20 || n == 0x85 || n == 0xA0 || n == 0x1680 ||
    (0x2000 ≤ n && n ≤ 0x200A) || n == 0x2028 || n == 0x2029 || n == 0x202F ||
    n == 0x205F || n == 0x3000

/-- Pieces with one more element in front of the first. -/
def consToFirst {α : Type} (a : α) : List (List α) → List (List α)
  | [] => [[a]]
  | piece :: more => (a :: piece) :: more

/-- The pieces of a text between the separators of a class, empty pieces
included: there is always one piece more than there are separators. -/
def pieces {α : Type} (separates : α → Bool) (cs : List α) : List (List α) :=
  cs.foldr (fun c found => if separates c then [] :: found else consToFirst c found) [[]]

/-- The words of a text: what stands between runs of blank characters. -/
def wordsOf (cs : List Char) : List (List Char) :=
  (pieces isBlank cs).filter (!·.isEmpty)

/-- The words of a text, as text. -/
def words (text : String) : List String :=
  (wordsOf text.toList).map String.ofList

/-- A text without the blank characters at its two ends. -/
def trimChars (cs : List Char) : List Char :=
  ((cs.dropWhile isBlank).reverse.dropWhile isBlank).reverse

/-- A text without the blank characters at its two ends, as text. -/
def trim (text : String) : String :=
  String.ofList (trimChars text.toList)

/-- Whether a text holds nothing but blank characters. -/
def isBlankText (text : String) : Bool :=
  text.toList.all isBlank

/-- Words joined by single spaces. -/
def unwords (ws : List String) : String :=
  " ".intercalate ws

/-- The fields of a text between two tabs. -/
def tabFields (text : String) : List String :=
  (pieces (· == '\t') text.toList).map String.ofList

section

variable {α : Type} (separates : α → Bool)

@[simp] theorem pieces_nil : pieces separates [] = [[]] := rfl

theorem pieces_cons (c : α) (rest : List α) :
    pieces separates (c :: rest) =
      if separates c then [] :: pieces separates rest
      else consToFirst c (pieces separates rest) := rfl

theorem pieces_ne_nil (cs : List α) : pieces separates cs ≠ [] := by
  cases cs with
  | nil => simp
  | cons c rest =>
    rw [pieces_cons]
    split
    · simp
    · cases pieces separates rest <;> simp [consToFirst]

/-- No piece holds a separator. -/
theorem not_separates_of_mem_pieces (cs : List α) :
    ∀ piece ∈ pieces separates cs, ∀ c ∈ piece, separates c = false := by
  induction cs with
  | nil => simp
  | cons a rest ih =>
    intro piece hpiece c hc
    rw [pieces_cons] at hpiece
    split at hpiece
    · rcases List.mem_cons.1 hpiece with rfl | h
      · simp at hc
      · exact ih piece h c hc
    · next ha =>
      have ha' : separates a = false := by simpa using ha
      cases hfound : pieces separates rest with
      | nil => exact absurd hfound (pieces_ne_nil separates rest)
      | cons first more =>
        rw [hfound] at hpiece ih
        rcases List.mem_cons.1 hpiece with rfl | h
        · rcases List.mem_cons.1 hc with rfl | h'
          · exact ha'
          · exact ih first (List.mem_cons_self ..) c h'
        · exact ih piece (List.mem_cons_of_mem _ h) c hc

end

/-- A word is not empty. -/
theorem ne_nil_of_mem_wordsOf {cs word : List Char} (h : word ∈ wordsOf cs) : word ≠ [] := by
  have := (List.mem_filter.1 h).2
  cases word <;> simp_all

/-- A word holds no blank character. -/
theorem not_isBlank_of_mem_wordsOf {cs word : List Char} (h : word ∈ wordsOf cs) :
    ∀ c ∈ word, isBlank c = false :=
  not_separates_of_mem_pieces isBlank cs word (List.mem_filter.1 h).1

end Phraseology.Text
