import Mathlib.Data.List.Forall2
import Phraseology.Proofs.Frame.Reading
import Phraseology.Proofs.Text.Lowered

/-!
# The text of recognizer output

A recognizer puts out a word and its confidence at the end of a line.  Both are written into one
token, the word in lower case and a colon in between, and are read again in three ways: a token is
read with its confidence, a search compares the word alone, and joined tokens are cut at blank
characters.  No way loses anything (`Renders.read_eq_ok`, `Renders.observation_eq`,
`Renders.isWord`).

* The last colon of a token is the one that was written between word and confidence, since no
  number holds a colon.  So it does not matter what the word holds.
* Lower case is its own lower case, and makes no blank characters.

All lines of at least two columns have to end in a number (`exists_ofColumnLines_iff`), and each of
them has one token (`renders_of_ofColumnLines`).
-/

namespace Phraseology.Token

variable {line word confidence raw : String} {fields raws : List String}
  {lines : List (Option String)}

/-! ## Columns -/

/-- Whether the last two columns of a line are a word and something behind it. -/
def EndsIn (line word confidence : String) : Prop :=
  ∃ front, Text.words line = front ++ [word, confidence]

/-- Whether a line has no confidence, or one that is a number. -/
def IsRated (line : String) : Prop :=
  ∀ word confidence, EndsIn line word confidence → Decimal.isNumber confidence = true

/-- Whether a line has at least two columns. -/
def isLong (line : String) : Bool :=
  2 ≤ (Text.words line).length

/-- Whether a token is that of a line. -/
def Renders (line raw : String) : Prop :=
  ∃ word confidence, EndsIn line word confidence ∧ Decimal.isNumber confidence = true ∧
    raw = Text.lower word ++ ":" ++ confidence

theorem lastTwo?_eq_some_iff :
    lastTwo? fields = some (word, confidence) ↔ ∃ front, fields = front ++ [word, confidence] := by
  unfold lastTwo?
  constructor
  · intro hlast
    split at hlast
    · next last before rest hreverse =>
        obtain ⟨rfl, rfl⟩ := Prod.mk.inj (Option.some.inj hlast)
        exact ⟨rest.reverse, by rw [← List.reverse_inj, hreverse]; simp⟩
    · cases hlast
  · rintro ⟨front, rfl⟩
    simp

theorem exists_endsIn (hlong : isLong line = true) :
    ∃ word confidence, EndsIn line word confidence := by
  have hlength : 2 ≤ (Text.words line).reverse.length := by simpa [isLong] using hlong
  match hreverse : (Text.words line).reverse with
  | [] => simp [hreverse] at hlength
  | [_] => simp [hreverse] at hlength
  | confidence :: word :: rest =>
      exact ⟨word, confidence, rest.reverse, by rw [← List.reverse_inj, hreverse]; simp⟩

theorem EndsIn.isLong (hends : EndsIn line word confidence) : isLong line = true := by
  obtain ⟨front, hwords⟩ := hends
  simp [Token.isLong, hwords]

theorem EndsIn.lastTwo?_eq (hends : EndsIn line word confidence) :
    lastTwo? (Text.words line) = some (word, confidence) :=
  lastTwo?_eq_some_iff.mpr hends

theorem ofColumns_of_short (hshort : isLong line = false) : ofColumns line = .ok none := by
  cases hlast : lastTwo? (Text.words line) with
  | none => simp only [ofColumns, hlast]
  | some columns =>
      have hends : EndsIn line columns.1 columns.2 := lastTwo?_eq_some_iff.mp hlast
      rw [hends.isLong] at hshort
      cases hshort

theorem ofColumns_of_number (hends : EndsIn line word confidence)
    (hnumber : Decimal.isNumber confidence = true) :
    ofColumns line = .ok (some (Text.lower word ++ ":" ++ confidence)) := by
  simp only [ofColumns, hends.lastTwo?_eq, hnumber, if_true]

theorem ofColumns_of_not_number (hends : EndsIn line word confidence)
    (hnumber : Decimal.isNumber confidence = false) :
    ofColumns line = .error (.invalidConfidence word confidence) := by
  simp only [ofColumns, hends.lastTwo?_eq, hnumber, Bool.false_eq_true, if_false]

/-- A line is short, gives its token, or ends in something that is no number. -/
theorem ofColumns_cases (line : String) :
    (isLong line = false ∧ ofColumns line = .ok none) ∨
      (isLong line = true ∧ IsRated line ∧ ∃ raw, Renders line raw ∧
        ofColumns line = .ok (some raw)) ∨
      ¬ IsRated line ∧ ∃ failure, ofColumns line = .error failure := by
  cases hlong : isLong line with
  | false => exact .inl ⟨rfl, ofColumns_of_short hlong⟩
  | true =>
      obtain ⟨word, confidence, hends⟩ := exists_endsIn hlong
      cases hnumber : Decimal.isNumber confidence with
      | true =>
          refine .inr (.inl ⟨rfl, fun other value hother => ?_, _,
            ⟨word, confidence, hends, hnumber, rfl⟩, ofColumns_of_number hends hnumber⟩)
          have hsame := hends.lastTwo?_eq.symm.trans hother.lastTwo?_eq
          rw [← (Prod.mk.inj (Option.some.inj hsame)).2, hnumber]
      | false =>
          refine .inr (.inr ⟨fun hrated => ?_, _, ofColumns_of_not_number hends hnumber⟩)
          rw [hrated word confidence hends] at hnumber
          cases hnumber

/-- A word may hold colons and look like one with a confidence. -/
example : ofColumns "utt 1 0.31 A:0.5 9.3E-1" = .ok (some "a:0.5:9.3E-1") := rfl

/-! ## Lines -/

theorem isRated_of_short (hshort : isLong line = false) : IsRated line := by
  intro word confidence hends
  rw [hends.isLong] at hshort
  cases hshort

theorem ofColumnLines_of_short (hline : ofColumns line = .ok none) :
    ofColumnLines (some line :: lines) = ofColumnLines lines := by
  cases hlines : ofColumnLines lines <;> simp [ofColumnLines, hline, hlines]

theorem ofColumnLines_of_token (hline : ofColumns line = .ok (some raw)) :
    ofColumnLines (some line :: lines) = (ofColumnLines lines).map (raw :: ·) := by
  cases hlines : ofColumnLines lines <;> simp [ofColumnLines, hline, hlines, Except.map]

/-- Each line of at least two columns has its token. -/
theorem renders_of_ofColumnLines (hread : ofColumnLines lines = .ok raws) :
    ∃ texts : List String, lines = texts.map some ∧
      List.Forall₂ Renders (texts.filter isLong) raws := by
  induction lines generalizing raws with
  | nil =>
      obtain rfl := Except.ok.inj hread
      exact ⟨[], rfl, .nil⟩
  | cons line lines ih =>
      cases line with
      | none => cases hread
      | some line =>
          rcases ofColumns_cases line with ⟨hshort, hline⟩ | ⟨hlong, -, raw, hraw, hline⟩ |
            ⟨-, failure, hline⟩
          · rw [ofColumnLines_of_short hline] at hread
            obtain ⟨texts, rfl, htokens⟩ := ih hread
            refine ⟨line :: texts, rfl, ?_⟩
            rwa [List.filter_cons_of_neg (by simp [hshort])]
          · rw [ofColumnLines_of_token hline] at hread
            cases hlines : ofColumnLines lines with
            | error failure => simp [hlines, Except.map] at hread
            | ok others =>
                obtain ⟨texts, rfl, htokens⟩ := ih hlines
                rw [hlines] at hread
                obtain rfl := Except.ok.inj hread
                refine ⟨line :: texts, rfl, ?_⟩
                rw [List.filter_cons_of_pos hlong]
                exact .cons hraw htokens
          · simp [ofColumnLines, hline] at hread

theorem exists_ofColumnLines_iff :
    (∃ raws, ofColumnLines lines = .ok raws) ↔
      ∃ texts : List String, lines = texts.map some ∧ ∀ text ∈ texts, IsRated text := by
  induction lines with
  | nil => exact iff_of_true ⟨[], rfl⟩ ⟨[], rfl, by simp⟩
  | cons line lines ih =>
      cases line with
      | none =>
          refine iff_of_false (by simp [ofColumnLines]) ?_
          rintro ⟨texts, htexts, -⟩
          cases texts <;> simp at htexts
      | some line =>
          have hcons : (∃ texts : List String, some line :: lines = texts.map some ∧
              ∀ text ∈ texts, IsRated text) ↔
                IsRated line ∧
                  ∃ texts : List String, lines = texts.map some ∧ ∀ text ∈ texts, IsRated text := by
            constructor
            · rintro ⟨texts, htexts, hrated⟩
              cases texts with
              | nil => cases htexts
              | cons first texts =>
                  obtain ⟨hfirst, rfl⟩ := List.cons.inj htexts
                  obtain rfl := Option.some.inj hfirst
                  obtain ⟨hline, hothers⟩ := List.forall_mem_cons.mp hrated
                  exact ⟨hline, texts, rfl, hothers⟩
            · rintro ⟨hline, texts, rfl, hothers⟩
              exact ⟨line :: texts, rfl, List.forall_mem_cons.mpr ⟨hline, hothers⟩⟩
          rw [hcons, ← ih]
          rcases ofColumns_cases line with ⟨hshort, hline⟩ | ⟨-, hrated, raw, -, hline⟩ |
            ⟨hrated, failure, hline⟩
          · rw [ofColumnLines_of_short hline, and_iff_right (isRated_of_short hshort)]
          · rw [ofColumnLines_of_token hline, and_iff_right hrated]
            cases ofColumnLines lines <;> simp [Except.map]
          · exact iff_of_false (by simp [ofColumnLines, hline]) fun hboth => hrated hboth.1

/-! ## Tokens -/

/-- A token is read as the word in lower case with its confidence, and a search compares the
word. -/
theorem read_rendered (hnumber : Decimal.isNumber confidence = true) (word : String) :
    ∃ value, Decimal.float? confidence = some value ∧
      read (Text.lower word ++ ":" ++ confidence) = .ok { word := Text.lower word,
                                                          confidence := value } ∧
      observation (Text.lower word ++ ":" ++ confidence) = Text.lower word := by
  obtain ⟨value, hvalue⟩ : ∃ value, Decimal.float? confidence = some value := by
    rw [← Option.isSome_iff_exists, Decimal.float?_isSome, hnumber]
  have hcolon : ':' ∉ confidence.toList := by
    intro hmem
    exact absurd (Decimal.isNumeral_of_isNumber hnumber ':' hmem) (by decide)
  have hsplit : splitAtLastColon? (Text.lower word ++ ":" ++ confidence) =
      some (Text.lower word, confidence) := by
    have hjoined : Text.lower word ++ ":" ++ confidence =
        Text.lower word ++ String.ofList (':' :: confidence.toList) := by
      simp [← String.toList_inj]
    rw [hjoined, Frame.splitAtLastColon?_append hcolon, String.ofList_toList]
  refine ⟨value, hvalue, ?_, ?_⟩
  · simp only [read, hsplit, hvalue]
  · simp only [observation, hsplit, hnumber, if_true, Text.lower_lower]

theorem exists_renders_of_mem {texts : List String} (htokens : List.Forall₂ Renders texts raws)
    (hraw : raw ∈ raws) : ∃ line, Renders line raw := by
  induction htokens with
  | nil => cases hraw
  | cons hfirst _ ih =>
      rcases List.mem_cons.mp hraw with rfl | hlater
      · exact ⟨_, hfirst⟩
      · exact ih hlater

theorem Renders.isWord (hrenders : Renders line raw) : Text.IsWord raw := by
  obtain ⟨word, confidence, ⟨front, hwords⟩, hnumber, rfl⟩ := hrenders
  have hword : Text.IsWord word := Text.isWord_of_mem_words (by rw [hwords]; simp)
  have hsolid : Text.IsSolid confidence := fun c hc =>
    Decimal.not_isBlank_of_isNumeral (Decimal.isNumeral_of_isNumber hnumber c hc)
  exact (hword.lower.append (by decide)).append hsolid

/-- Recognizer output is read exactly if all its lines of at least two columns end in a number.
Then each of these lines has one token, and nothing is lost in it: it is read as the word in lower
case with the confidence of the line, whatever the word holds, a search compares this word with the
grammar, and the tokens that are joined to a sentence are its words again. -/
theorem recognized_survives (bytes : ByteArray) :
    ((∃ raws, ofRecognizer bytes = .ok raws) ↔
      ∃ lines : List String, Text.lines bytes = lines.map some ∧ ∀ line ∈ lines, IsRated line) ∧
    (∀ line word confidence, some line ∈ Text.lines bytes → EndsIn line word confidence →
      Decimal.isNumber confidence = false → ∃ failure, ofRecognizer bytes = .error failure) ∧
    ∀ raws, ofRecognizer bytes = .ok raws →
      (∃ lines : List String, Text.lines bytes = lines.map some ∧
        List.Forall₂ (fun line raw => ∃ word confidence value, EndsIn line word confidence ∧
            Decimal.float? confidence = some value ∧ raw = Text.lower word ++ ":" ++ confidence ∧
            read raw = .ok { word := Text.lower word, confidence := value } ∧
            observation raw = Text.lower word)
          (lines.filter isLong) raws) ∧
      Text.words (Text.unwords raws) = raws ∧
      ∃ tokens, readAll raws = .ok tokens ∧
        ∀ strict, Frame.ofRecognizer bytes strict = Frame.ofRepaired tokens strict := by
  refine ⟨exists_ofColumnLines_iff, ?_, ?_⟩
  · intro line word confidence hline hends hnumber
    cases hread : ofRecognizer bytes with
    | error failure => exact ⟨failure, rfl⟩
    | ok raws =>
        obtain ⟨lines, hlines, hrated⟩ := exists_ofColumnLines_iff.mp ⟨raws, hread⟩
        rw [hlines] at hline
        have hmem : line ∈ lines := by simpa using hline
        rw [hrated line hmem word confidence hends] at hnumber
        cases hnumber
  · intro raws hread
    obtain ⟨lines, hlines, htokens⟩ := renders_of_ofColumnLines hread
    have hwords : ∀ raw ∈ raws, Text.IsWord raw := by
      intro raw hraw
      obtain ⟨line, hrenders⟩ := exists_renders_of_mem htokens hraw
      exact hrenders.isWord
    have hreadable : ∀ raw ∈ raws, ∃ token, read raw = .ok token := by
      intro raw hraw
      obtain ⟨line, word, confidence, -, hnumber, rfl⟩ := exists_renders_of_mem htokens hraw
      obtain ⟨value, -, htoken, -⟩ := read_rendered hnumber word
      exact ⟨_, htoken⟩
    obtain ⟨tokens, hall⟩ := Frame.exists_readAll_iff.mpr hreadable
    refine ⟨⟨lines, hlines, htokens.imp ?_⟩, Text.words_unwords hwords, tokens, hall, ?_⟩
    · rintro line raw ⟨word, confidence, hends, hnumber, rfl⟩
      obtain ⟨value, hvalue, htoken, hobserved⟩ := read_rendered hnumber word
      exact ⟨word, confidence, value, hends, hvalue, rfl, htoken, hobserved⟩
    · intro strict
      simp only [Frame.ofRecognizer, hread, hall]

end Phraseology.Token
