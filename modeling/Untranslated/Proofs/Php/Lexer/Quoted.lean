/-
This file proves that the end of a quoted text is settled by the text up to it.
A document ends at its label, which no label character may follow.
-/

import Untranslated.Proofs.Php.Lexer.Measures

namespace Untranslated.Php

/-- A run ends where its test fails. -/
theorem takeWhile_front {test : Char → Bool} {front after : List Char}
    (inside : ∀ c ∈ front, test c = true) (ends : after.head?.any test = false) :
    (front ++ after).takeWhile test = front := by
  rw [List.takeWhile_append_of_pos inside]
  cases after with
  | nil => simp
  | cons c rest =>
      have other : test c = false := by simpa using ends
      simp [other]

/-- A run and what is left behind it make up the text. -/
theorem takeWhile_drop (test : Char → Bool) (cs : List Char) :
    cs.takeWhile test ++ cs.drop (cs.takeWhile test).length = cs := by
  induction cs with
  | nil => rfl
  | cons c rest inductionHypothesis =>
      cases is : test c with
      | false => simp [is]
      | true => simpa [is] using inductionHypothesis

/-- A label is a word. -/
structure IsLabel (label : List Char) : Prop where
  filled : label ≠ []
  parts : ∀ c ∈ label, isLabelPart c = true

/-- A document that is open has a label. -/
def Quotation.IsSound : Quotation → Prop
  | .document label => IsLabel label
  | _ => True

/-- The text does not go on with a word. -/
def EndsWord (after : List Char) : Prop := after.head?.any isLabelPart = false

theorem isLabelPart_of_isIndent {c : Char} (indent : isIndent c = true) : isLabelPart c = false := by
  rcases Bool.or_eq_true_iff.mp indent with is | is <;> rw [eq_of_beq is] <;> decide

/-- A closing line is an indent, the label and what does not go on with the word. -/
theorem closingLabel?_eq_some {label cs : List Char} {size : Nat} (sound : IsLabel label) :
    closingLabel? label cs = some size ↔
      ∃ indent after, cs = indent ++ (label ++ after) ∧ (∀ c ∈ indent, isIndent c = true) ∧
        size = indent.length + label.length ∧ EndsWord after := by
  simp only [closingLabel?]
  constructor
  · intro found
    split at found
    · rename_i closes
      obtain ⟨front, ends⟩ := Bool.and_eq_true_iff.mp closes
      obtain ⟨after, rest⟩ := List.isPrefixOf_iff_prefix.mp front
      refine ⟨cs.takeWhile isIndent, after, ?_, fun c member => List.mem_takeWhile_imp member,
        (Option.some.inj found).symm, ?_⟩
      · rw [rest, takeWhile_drop]
      · rw [← rest, List.drop_left] at ends
        simpa [EndsWord] using ends
    · cases found
  · rintro ⟨indent, after, rfl, indented, rfl, ends⟩
    have noIndent : (label ++ after).head?.any isIndent = false := by
      obtain ⟨c, rest, rfl⟩ := List.exists_cons_of_ne_nil sound.filled
      have part := sound.parts c List.mem_cons_self
      rw [List.cons_append, List.head?_cons, Option.any_some, Bool.eq_false_iff]
      intro is
      rw [isLabelPart_of_isIndent is] at part
      cases part
    simp only [takeWhile_front indented noIndent, List.drop_left]
    rw [if_pos]
    simpa [EndsWord] using ends

/-- The characters of an indent and a label. -/
def isClosingChar (c : Char) : Bool := isIndent c || isLabelPart c

/-- No other character is in a closing label. -/
theorem isClosingChar_ne {c other : Char} (closing : isClosingChar c = true)
    (is : isClosingChar other = false) : c ≠ other := by
  rintro rfl
  rw [is] at closing
  cases closing

/-- Of two ways to cut a text, the one that ends first is the front of the other. -/
theorem front_of_append {text added front after : List Char} (same : text ++ added = front ++ after)
    (shorter : front.length ≤ text.length) :
    ∃ rest, text = front ++ rest ∧ after = rest ++ added := by
  rcases List.append_eq_append_iff.mp same with ⟨more, rfl, rest⟩ | ⟨rest, whole, tail⟩
  · obtain rfl : more = [] := by
      rw [List.length_append] at shorter
      exact List.eq_nil_of_length_eq_zero (by omega)
    exact ⟨[], by simp, by simpa using rest.symm⟩
  · exact ⟨rest, whole, tail⟩

/-- A label that ends inside a text closes it there, whatever follows. -/
theorem closingLabel?_within {label text added other : List Char} {size : Nat}
    (sound : IsLabel label) (found : closingLabel? label (text ++ added) = some size)
    (inside : size ≤ text.length) (ends : EndsWord other) :
    closingLabel? label (text ++ other) = some size := by
  obtain ⟨indent, after, whole, indented, rfl, word⟩ := (closingLabel?_eq_some sound).mp found
  rw [← List.append_assoc] at whole
  obtain ⟨rest, rfl, rfl⟩ := front_of_append whole (by simpa using inside)
  refine (closingLabel?_eq_some sound).mpr
    ⟨indent, rest ++ other, by simp, indented, rfl, ?_⟩
  cases rest with
  | nil => exact ends
  | cons c rest => exact word

/-- A text that a label closes with one continuation only is the front of a closing line. -/
theorem closingLabel?_front {label text added other : List Char} {size : Nat}
    (sound : IsLabel label) (found : closingLabel? label (text ++ added) = some size)
    (stays : closingLabel? label (text ++ other) = none) : ∀ c ∈ text, isClosingChar c = true := by
  obtain ⟨indent, after, whole, indented, rfl, word⟩ := (closingLabel?_eq_some sound).mp found
  rw [← List.append_assoc] at whole
  have line : ∀ c ∈ indent ++ label, isClosingChar c = true := by
    intro c member
    rcases List.mem_append.mp member with member | member
    · simp [isClosingChar, indented c member]
    · simp [isClosingChar, sound.parts c member]
  rcases List.append_eq_append_iff.mp whole with ⟨more, longer, -⟩ | ⟨rest, rfl, rfl⟩
  · intro c member
    exact line c (by rw [longer]; exact List.mem_append_left more member)
  · cases rest with
    | nil => simpa using line
    | cons c rest =>
        have closes : closingLabel? label (indent ++ label ++ c :: rest ++ other) =
            some (indent.length + label.length) :=
          (closingLabel?_eq_some sound).mpr
            ⟨indent, c :: rest ++ other, by simp, indented, rfl, word⟩
        rw [stays] at closes
        cases closes

/-- A closing label takes some characters. -/
theorem closingLabel?_positive {label text : List Char} {size : Nat} (sound : IsLabel label)
    (found : closingLabel? label text = some size) : 0 < size := by
  obtain ⟨indent, after, -, -, rfl, -⟩ := (closingLabel?_eq_some sound).mp found
  have filled := List.length_pos_iff.mpr sound.filled
  omega

/-- No line ends within a closing label. -/
theorem isLineEnd_of_isClosingChar {c : Char} (closing : isClosingChar c = true) :
    (c == '\n' || c == '\r') = false := by
  rw [Bool.or_eq_false_iff, beq_eq_false_iff_ne, beq_eq_false_iff_ne]
  exact ⟨isClosingChar_ne closing (by decide), isClosingChar_ne closing (by decide)⟩

/-- The end of a nowdoc takes some characters. -/
theorem nowdocLength?_positive {label text : List Char} {lineStart : Bool} {size : Nat}
    (sound : IsLabel label) (found : nowdocLength? label lineStart text = some size) : 0 < size := by
  have closing {cs : List Char} {size : Nat}
      (found : (if lineStart then closingLabel? label cs else none) = some size) : 0 < size := by
    split at found
    · exact closingLabel?_positive sound found
    · cases found
  unfold nowdocLength? at found
  split at found
  · exact closing found
  · split at found
    · rename_i closes
      obtain rfl := Option.some.inj found
      exact closing closes
    · obtain ⟨inner, -, rfl⟩ := Option.map_eq_some_iff.mp found
      omega

/-- Where no line begins a nowdoc goes on beyond all characters of a closing line. -/
theorem nowdocLength?_line {label text added : List Char} {size : Nat} (sound : IsLabel label)
    (line : ∀ c ∈ text, isClosingChar c = true)
    (found : nowdocLength? label false (text ++ added) = some size) : text.length < size := by
  induction text generalizing size with
  | nil => exact nowdocLength?_positive sound found
  | cons c rest inductionHypothesis =>
      rw [List.cons_append, nowdocLength?, isLineEnd_of_isClosingChar (line c List.mem_cons_self)]
        at found
      obtain ⟨inner, foundInner, rfl⟩ := Option.map_eq_some_iff.mp found
      have inside := inductionHypothesis (fun c member => line c (List.mem_cons_of_mem _ member))
        foundInner
      simpa using inside

/-- The end of a nowdoc within a text does not depend on what follows the text. -/
theorem nowdocLength?_within {label text added other : List Char} {lineStart : Bool} {size : Nat}
    (sound : IsLabel label) (ends : EndsWord other)
    (found : nowdocLength? label lineStart (text ++ added) = some size)
    (inside : size ≤ text.length) : nowdocLength? label lineStart (text ++ other) = some size := by
  induction text generalizing lineStart size with
  | nil => exact absurd inside (Nat.not_le.mpr (nowdocLength?_positive sound found))
  | cons c rest inductionHypothesis =>
      rw [List.cons_append, nowdocLength?] at found ⊢
      cases lineStart with
      | false =>
          obtain ⟨inner, foundInner, rfl⟩ := Option.map_eq_some_iff.mp found
          simp only [Bool.false_eq_true, if_false]
          rw [inductionHypothesis foundInner (by simpa using inside)]
          rfl
      | true =>
          simp only [if_true] at found ⊢
          cases closes : closingLabel? label (c :: (rest ++ added)) with
          | some closing =>
              rw [closes] at found
              obtain rfl := Option.some.inj found
              have closes' : closingLabel? label (c :: (rest ++ other)) = some closing := by
                rw [← List.cons_append] at closes ⊢
                exact closingLabel?_within sound closes inside ends
              rw [closes']
          | none =>
              rw [closes] at found
              obtain ⟨inner, foundInner, rfl⟩ := Option.map_eq_some_iff.mp found
              have innerInside : inner ≤ rest.length := by simpa using inside
              cases closes' : closingLabel? label (c :: (rest ++ other)) with
              | some early =>
                  -- The other text would end here, so that all of this one is in its last line.
                  rw [← List.cons_append] at closes closes'
                  have line := closingLabel?_front sound closes' closes
                  rw [isLineEnd_of_isClosingChar (line c List.mem_cons_self)] at foundInner
                  have beyond := nowdocLength?_line sound
                    (fun c member => line c (List.mem_cons_of_mem _ member)) foundInner
                  omega
              | none =>
                  simp only
                  rw [inductionHypothesis foundInner innerInside]
                  rfl

/-- The characters that a piece takes in one go. -/
def stride : List Char → Nat
  | '\\' :: c :: _ => if isEscapable c then 2 else 1
  | _ => 1

/-- A piece goes on until it is closed or an interpolation begins. -/
theorem piece_cons (quotation : Quotation) (lineStart : Bool) (c : Char) (rest : List Char) :
    piece quotation lineStart (c :: rest) =
      if quotation.closes lineStart (c :: rest) then (0, .closed)
      else if beginsInterpolation (c :: rest) then (0, .interpolation)
      else
        let (size, ending) :=
          piece quotation (c == '\n' || c == '\r') ((c :: rest).drop (stride (c :: rest)))
        (size + stride (c :: rest), ending) := by
  rw [piece.eq_def]
  split
  · rename_i same
    cases same
  · rename_i next others same
    obtain ⟨rfl, rfl⟩ := List.cons.inj same
    have plain : beginsInterpolation ('\\' :: next :: others) = false := rfl
    rw [plain]
    simp only [Bool.false_eq_true, if_false, stride]
    split
    · rfl
    · split <;> rfl
  · rename_i c rest single same
    obtain ⟨rfl, rfl⟩ := List.cons.inj same
    have one : stride (c :: rest) = 1 := by
      unfold stride
      split
      · rename_i next others same
        obtain ⟨rfl, rfl⟩ := List.cons.inj same
        exact absurd rfl (single next others rfl)
      · rfl
    rw [one]
    rfl

section

variable {quotation : Quotation} {lineStart : Bool} {c : Char} {cs : List Char}

/-- A piece is empty where the quotation is closed. -/
theorem piece_closed (filled : cs ≠ []) (closes : quotation.closes lineStart cs = true) :
    piece quotation lineStart cs = (0, .closed) := by
  obtain ⟨c, rest, rfl⟩ := List.exists_cons_of_ne_nil filled
  rw [piece_cons, if_pos closes]

/-- A piece is empty where an interpolation begins. -/
theorem piece_interpolation (filled : cs ≠ []) (stays : quotation.closes lineStart cs = false)
    (begins : beginsInterpolation cs = true) :
    piece quotation lineStart cs = (0, .interpolation) := by
  obtain ⟨c, rest, rfl⟩ := List.exists_cons_of_ne_nil filled
  rw [piece_cons, stays, begins]
  rfl

/-- A piece takes a stride and goes on behind it. -/
theorem piece_goes (head : cs.head? = some c) (stays : quotation.closes lineStart cs = false)
    (plain : beginsInterpolation cs = false) :
    piece quotation lineStart cs =
      ((piece quotation (c == '\n' || c == '\r') (cs.drop (stride cs))).1 + stride cs,
      (piece quotation (c == '\n' || c == '\r') (cs.drop (stride cs))).2) := by
  obtain ⟨rest, rfl⟩ := List.head?_eq_some_iff.mp head
  rw [piece_cons, stays, plain]
  rfl

end

/-- A stride takes some characters. -/
theorem stride_positive (cs : List Char) : 0 < stride cs := by
  unfold stride
  split
  · split <;> decide
  · decide

/-- There is less text behind a stride. -/
theorem drop_stride_shorter {cs : List Char} (filled : cs ≠ []) :
    (cs.drop (stride cs)).length < cs.length := by
  have positive := stride_positive cs
  have length := List.length_pos_iff.mpr filled
  rw [List.length_drop]
  omega

/-- A piece of a quoted text, stride by stride, up to what ends it. -/
inductive Spans (quotation : Quotation) : Bool → List Char → Nat → PieceEnd → Prop where
  | unclosed {lineStart : Bool} : Spans quotation lineStart [] 0 .unclosed
  | closed {lineStart : Bool} {cs : List Char} (filled : cs ≠ [])
      (closes : quotation.closes lineStart cs = true) : Spans quotation lineStart cs 0 .closed
  | interpolation {lineStart : Bool} {cs : List Char} (filled : cs ≠ [])
      (stays : quotation.closes lineStart cs = false) (begins : beginsInterpolation cs = true) :
      Spans quotation lineStart cs 0 .interpolation
  | onward {lineStart : Bool} {c : Char} {rest : List Char} {size : Nat} {ending : PieceEnd}
      (stays : quotation.closes lineStart (c :: rest) = false)
      (plain : beginsInterpolation (c :: rest) = false)
      (further : Spans quotation (c == '\n' || c == '\r')
        ((c :: rest).drop (stride (c :: rest))) size ending) :
      Spans quotation lineStart (c :: rest) (size + stride (c :: rest)) ending

/-- The reader takes a piece stride by stride. -/
theorem piece_spans (quotation : Quotation) (lineStart : Bool) (cs : List Char) :
    Spans quotation lineStart cs (piece quotation lineStart cs).1
      (piece quotation lineStart cs).2 := by
  induction length : cs.length using Nat.strongRecOn generalizing lineStart cs with
  | ind bound inductionHypothesis =>
  subst length
  cases cs with
  | nil => exact .unclosed
  | cons c rest =>
      cases stays : quotation.closes lineStart (c :: rest) with
      | true =>
          rw [piece_closed (by simp) stays]
          exact .closed (by simp) stays
      | false =>
          cases begins : beginsInterpolation (c :: rest) with
          | true =>
              rw [piece_interpolation (by simp) stays begins]
              exact .interpolation (by simp) stays begins
          | false =>
              rw [piece_goes rfl stays begins]
              exact .onward stays begins
                (inductionHypothesis _ (drop_stride_shorter (by simp)) _ _ rfl)

/-- The reader finds a piece just where there is one. -/
theorem spans_iff {quotation : Quotation} {lineStart : Bool} {cs : List Char} {size : Nat}
    {ending : PieceEnd} :
    Spans quotation lineStart cs size ending ↔ piece quotation lineStart cs = (size, ending) := by
  constructor
  · intro spans
    induction spans with
    | unclosed => rfl
    | closed filled closes => exact piece_closed filled closes
    | interpolation filled stays begins => exact piece_interpolation filled stays begins
    | onward stays plain _ inductionHypothesis =>
        rw [piece_goes rfl stays plain, inductionHypothesis]
  · intro found
    have spans := piece_spans quotation lineStart cs
    rwa [found] at spans

/-- The closing of a quotation takes some characters. -/
theorem closingLength_positive {quotation : Quotation} (sound : quotation.IsSound)
    (cs : List Char) : 0 < closingLength quotation cs := by
  cases quotation with
  | double => exact Nat.one_pos
  | shell => exact Nat.one_pos
  | document label =>
      simp only [closingLength]
      cases closes : closingLabel? label cs with
      | none => exact Nat.one_pos
      | some size => exact closingLabel?_positive sound closes

/-- A quoted text that ends inside a text ends there, whatever follows. -/
theorem closes_within {quotation : Quotation} {lineStart : Bool} {text added other : List Char}
    (sound : quotation.IsSound) (closes : quotation.closes lineStart (text ++ added) = true)
    (inside : closingLength quotation (text ++ added) ≤ text.length) (ends : EndsWord other) :
    quotation.closes lineStart (text ++ other) = true ∧
      closingLength quotation (text ++ other) = closingLength quotation (text ++ added) := by
  cases quotation with
  | double | shell =>
      cases text with
      | nil => simp [closingLength] at inside
      | cons c rest => exact ⟨closes, rfl⟩
  | document label =>
      obtain ⟨start, found⟩ := Bool.and_eq_true_iff.mp closes
      obtain ⟨size, found⟩ := Option.isSome_iff_exists.mp found
      simp only [closingLength, found, Option.getD_some] at inside
      have found' := closingLabel?_within sound found inside ends
      simp [Quotation.closes, closingLength, start, found, found']

/-- A quoted text that ends with one continuation only is a document before its last line. -/
theorem closes_front {quotation : Quotation} {lineStart : Bool} {text added other : List Char}
    (sound : quotation.IsSound) (filled : text ≠ [])
    (closes : quotation.closes lineStart (text ++ added) = true)
    (stays : quotation.closes lineStart (text ++ other) = false) :
    (∃ label, quotation = .document label) ∧ ∀ c ∈ text, isClosingChar c = true := by
  obtain ⟨c, rest, rfl⟩ := List.exists_cons_of_ne_nil filled
  cases quotation with
  | double | shell =>
      have same : (c :: rest ++ added).head? = (c :: rest ++ other).head? := rfl
      simp only [Quotation.closes] at closes stays
      rw [same, stays] at closes
      cases closes
  | document label =>
      refine ⟨⟨label, rfl⟩, ?_⟩
      obtain ⟨start, found⟩ := Bool.and_eq_true_iff.mp closes
      obtain ⟨size, found⟩ := Option.isSome_iff_exists.mp found
      have none : closingLabel? label (c :: rest ++ other) = none := by
        simpa [Quotation.closes, start] using stays
      exact closingLabel?_front sound found none

/-- Where no line begins a document goes on beyond all characters of a closing line. -/
theorem piece_line {label text : List Char} (line : ∀ c ∈ text, isClosingChar c = true)
    (added : List Char) : text.length ≤ (piece (.document label) false (text ++ added)).1 := by
  induction text with
  | nil => exact Nat.zero_le _
  | cons c rest inductionHypothesis =>
      have closing := line c List.mem_cons_self
      have inside := inductionHypothesis fun c member => line c (List.mem_cons_of_mem _ member)
      have one : stride (c :: (rest ++ added)) = 1 := by
        unfold stride
        split
        · rename_i same
          exact absurd (List.cons.inj same).1 (isClosingChar_ne closing (by decide))
        · rfl
      have plain : beginsInterpolation (c :: (rest ++ added)) = false := by
        unfold beginsInterpolation
        split
        · rename_i same
          exact absurd (List.cons.inj same).1 (isClosingChar_ne closing (by decide))
        · rename_i same
          exact absurd (List.cons.inj same).1 (isClosingChar_ne closing (by decide))
        · rfl
      rw [List.cons_append, piece_cons, one, plain, isLineEnd_of_isClosingChar closing]
      simp only [Quotation.closes, Bool.false_and, Bool.false_eq_true, if_false,
        List.drop_succ_cons, List.drop_zero, List.length_cons]
      omega

/-- A piece and what ends it lie within so many characters. -/
def PieceWithin (quotation : Quotation) (bound : Nat) (cs : List Char) : Nat × PieceEnd → Prop
  | (size, .closed) => size + closingLength quotation (cs.drop size) ≤ bound
  | (size, .interpolation) => size + 2 ≤ bound
  | (_, .unclosed) => False

/-- A piece lies within a bound just when the rest of it lies within the rest of the bound. -/
theorem PieceWithin.drop_iff {quotation : Quotation} {bound count : Nat} {cs : List Char}
    (fits : count ≤ bound) (result : Nat × PieceEnd) :
    PieceWithin quotation bound cs (result.1 + count, result.2) ↔
      PieceWithin quotation (bound - count) (cs.drop count) result := by
  obtain ⟨size, ending⟩ := result
  cases ending with
  | unclosed => exact Iff.rfl
  | interpolation =>
      simp only [PieceWithin]
      omega
  | closed =>
      simp only [PieceWithin, List.drop_drop, Nat.add_comm count]
      omega

/-- What no line end begins is read as in the middle of a line. -/
theorem piece_lineStart {quotation : Quotation} {lineStart : Bool} {cs : List Char}
    (stays : quotation.closes lineStart cs = false) :
    piece quotation lineStart cs = piece quotation false cs := by
  cases cs with
  | nil => rfl
  | cons c rest =>
      have stays' : quotation.closes false (c :: rest) = false := by
        cases quotation with
        | double => exact stays
        | shell => exact stays
        | document label => rfl
      rw [piece_cons, piece_cons, stays, stays']

/-- A piece with its end does not lie within the piece alone. -/
theorem not_pieceWithin_short {quotation : Quotation} {cs : List Char}
    (sound : quotation.IsSound) (result : Nat × PieceEnd) {bound : Nat} (short : bound ≤ result.1) :
    ¬PieceWithin quotation bound cs result := by
  obtain ⟨size, ending⟩ := result
  have positive := closingLength_positive sound (cs.drop size)
  cases ending with
  | unclosed => exact id
  | interpolation =>
      simp only [PieceWithin] at short ⊢
      omega
  | closed =>
      simp only [PieceWithin] at short ⊢
      omega

/-- Two characters tell what a piece does next. -/
theorem stride_append (c next : Char) (rest added other : List Char) :
    beginsInterpolation (c :: next :: rest ++ added) =
        beginsInterpolation (c :: next :: rest ++ other) ∧
      stride (c :: next :: rest ++ added) = stride (c :: next :: rest ++ other) ∧
      stride (c :: next :: rest ++ added) ≤ (c :: next :: rest).length := by
  refine ⟨?_, ?_, ?_⟩
  · simp only [List.cons_append]
    unfold beginsInterpolation
    split <;> split <;> simp_all
  · simp only [List.cons_append]
    unfold stride
    split <;> split <;> simp_all
  · unfold stride
    split
    · split <;> simp
    · simp

/-- A piece that ends inside of a text shows that no text closes the quotation at its start. -/
theorem stays_within {quotation : Quotation} {lineStart : Bool} {text added : List Char}
    (sound : quotation.IsSound) (filled : text ≠ [])
    (stays : quotation.closes lineStart (text ++ added) = false)
    (within : PieceWithin quotation text.length (text ++ added)
      (piece quotation lineStart (text ++ added))) (other : List Char) :
    quotation.closes lineStart (text ++ other) = false := by
  rw [Bool.eq_false_iff]
  intro closes
  -- The other text would end here, so that all of this one is in its last line.
  obtain ⟨⟨label, rfl⟩, line⟩ := closes_front sound filled closes stays
  rw [piece_lineStart stays] at within
  exact not_pieceWithin_short sound _ (piece_line line added) within

/-- A piece that ends inside of a text is the same whatever follows the text. -/
theorem Spans.within {quotation : Quotation} {lineStart : Bool} {text added other : List Char}
    {size : Nat} {ending : PieceEnd} (sound : quotation.IsSound) (ends : EndsWord other)
    (spans : Spans quotation lineStart (text ++ added) size ending)
    (within : PieceWithin quotation text.length (text ++ added) (size, ending)) :
    Spans quotation lineStart (text ++ other) size ending ∧
      PieceWithin quotation text.length (text ++ other) (size, ending) := by
  generalize whole : text ++ added = cs at spans within
  induction spans generalizing text with
  | unclosed => exact within.elim
  | closed filled closes =>
      subst whole
      have present : text ≠ [] := fun empty =>
        not_pieceWithin_short sound _ (by simp [empty]) within
      simp only [PieceWithin, Nat.zero_add, List.drop_zero] at within ⊢
      obtain ⟨closes', same⟩ := closes_within sound closes within ends
      exact ⟨.closed (List.append_ne_nil_of_left_ne_nil present other) closes', same ▸ within⟩
  | interpolation filled stays begins =>
      subst whole
      match text with
      | [] | [_] => simp [PieceWithin] at within
      | c :: next :: rest =>
          have found := piece_interpolation filled stays begins
          have stays' := stays_within sound (by simp) stays (found ▸ within) other
          obtain ⟨same, -, -⟩ := stride_append c next rest added other
          exact ⟨.interpolation (by simp) stays' (same ▸ begins), within⟩
  | @onward lineStart c rest size ending stays plain further inductionHypothesis =>
      have found := spans_iff.mp (further.onward stays plain)
      have positive := stride_positive (c :: rest)
      match text with
      | [] => exact absurd within (not_pieceWithin_short sound _ (Nat.zero_le _))
      | [first] =>
          exact absurd within (not_pieceWithin_short sound _ (Nat.le_add_left_of_le positive))
      | first :: next :: text =>
          obtain ⟨rfl, rfl⟩ : first = c ∧ next :: (text ++ added) = rest := List.cons.inj whole
          have stays' := stays_within sound (by simp) stays (found ▸ within) other
          obtain ⟨same, strides, fits⟩ := stride_append first next text added other
          have onward := @Spans.onward quotation lineStart first (next :: (text ++ other)) size
            ending stays' (same ▸ plain)
          simp only [List.cons_append] at strides fits onward further within inductionHypothesis ⊢
          rw [← strides] at onward
          generalize stride (first :: next :: (text ++ added)) = count at *
          have inner : PieceWithin quotation ((first :: next :: text).drop count).length
              ((first :: next :: (text ++ added)).drop count) (size, ending) := by
            rw [List.length_drop]
            exact (PieceWithin.drop_iff fits (size, ending)).mp within
          obtain ⟨spans, inside⟩ :=
            inductionHypothesis (List.drop_append_of_le_length fits).symm inner
          rw [← List.drop_append_of_le_length fits] at spans inside
          rw [List.length_drop] at inside
          exact ⟨onward spans, (PieceWithin.drop_iff fits (size, ending)).mpr inside⟩

/-- A piece within a text does not depend on what follows the text. -/
theorem piece_within {quotation : Quotation} {lineStart : Bool} {text added other : List Char}
    (sound : quotation.IsSound) (ends : EndsWord other)
    (within : PieceWithin quotation text.length (text ++ added)
      (piece quotation lineStart (text ++ added))) :
    piece quotation lineStart (text ++ other) = piece quotation lineStart (text ++ added) ∧
      PieceWithin quotation text.length (text ++ other)
        (piece quotation lineStart (text ++ added)) := by
  obtain ⟨spans, inside⟩ :=
    (piece_spans quotation lineStart (text ++ added)).within sound ends within
  exact ⟨spans_iff.mp spans, inside⟩

/-- The last of two texts tells whether a line ends. -/
theorem endsLine_append (first : List Char) {second : List Char} (filled : second ≠ []) :
    endsLine (first ++ second) = endsLine second := by
  have last : (first ++ second).getLast? = second.getLast? := by
    rw [List.getLast?_append, List.getLast?_eq_some_getLast filled, Option.some_or]
  rw [endsLine, endsLine, last]

/-- The first character of a stride tells whether a line ends with it. -/
theorem endsLine_stride (c : Char) (rest : List Char) :
    endsLine ((c :: rest).take (stride (c :: rest))) = (c == '\n' || c == '\r') := by
  unfold stride
  split
  · rename_i next others same
    obtain ⟨rfl, rfl⟩ := List.cons.inj same
    split
    · rename_i escapable
      have other (newline : isEscapable next = true) : (next == '\n' || next == '\r') = false := by
        rw [Bool.or_eq_false_iff, beq_eq_false_iff_ne, beq_eq_false_iff_ne]
        constructor <;> rintro rfl <;> revert newline <;> decide
      exact other escapable
    · rfl
  · rfl

/-- What ends a piece stands after its plain text. -/
theorem Spans.end {quotation : Quotation} {lineStart : Bool} {cs : List Char} {size : Nat}
    {ending : PieceEnd} (spans : Spans quotation lineStart cs size ending) (positive : 0 < size) :
    Spans quotation (endsLine (cs.take size)) (cs.drop size) 0 ending := by
  induction spans with
  | unclosed | closed | interpolation => exact absurd positive (Nat.lt_irrefl 0)
  | @onward lineStart c rest size ending stays plain further inductionHypothesis =>
      have line := endsLine_stride c rest
      generalize stride (c :: rest) = count at *
      by_cases none : size = 0
      · subst none
        rw [Nat.zero_add, line]
        exact further
      · have filled : (c :: rest).drop count ≠ [] := by
          intro empty
          rw [empty] at further
          cases further <;> exact none rfl
        have taken : ((c :: rest).drop count).take size ≠ [] := by
          simp [List.take_eq_nil_iff, none, filled]
        rw [Nat.add_comm, List.take_add, endsLine_append _ taken, ← List.drop_drop]
        exact inductionHypothesis (Nat.pos_of_ne_zero none)

/-- Behind a piece stands what ends it. -/
theorem piece_end {quotation : Quotation} {lineStart : Bool} {cs : List Char} {size : Nat}
    {ending : PieceEnd} (found : piece quotation lineStart cs = (size, ending))
    (positive : 0 < size) :
    piece quotation (endsLine (cs.take size)) (cs.drop size) = (0, ending) :=
  spans_iff.mp ((spans_iff.mpr found).end positive)

/-- An empty piece is ended by what stands there. -/
theorem piece_zero {quotation : Quotation} {lineStart : Bool} {cs : List Char} {ending : PieceEnd}
    (found : piece quotation lineStart cs = (0, ending)) :
    ending = .unclosed ∨ quotation.closes lineStart cs = true ∧ ending = .closed ∨
      beginsInterpolation cs = true ∧ ending = .interpolation := by
  generalize none : 0 = size at found
  cases spans_iff.mpr found with
  | unclosed => exact .inl rfl
  | closed filled closes => exact .inr (.inl ⟨closes, rfl⟩)
  | interpolation filled stays begins => exact .inr (.inr ⟨begins, rfl⟩)
  | @onward _ c rest =>
      have positive := stride_positive (c :: rest)
      omega

/-- A closed piece ends where the quotation is closed. -/
theorem Spans.closes {quotation : Quotation} {lineStart : Bool} {cs : List Char} {size : Nat}
    {ending : PieceEnd} (spans : Spans quotation lineStart cs size ending)
    (closed : ending = .closed) :
    ∃ lineStart', quotation.closes lineStart' (cs.drop size) = true := by
  induction spans with
  | closed filled closes => exact ⟨_, closes⟩
  | unclosed | interpolation => cases closed
  | onward stays plain further inductionHypothesis =>
      rw [Nat.add_comm, ← List.drop_drop]
      exact inductionHypothesis closed

/-- A closed piece has its closing behind it. -/
theorem piece_closes {quotation : Quotation} {lineStart : Bool} {cs : List Char} {size : Nat}
    (found : piece quotation lineStart cs = (size, .closed)) :
    ∃ lineStart', quotation.closes lineStart' (cs.drop size) = true :=
  (spans_iff.mpr found).closes rfl

/-- A quoted text that ends inside a text has one end there, whatever follows. -/
theorem closingLength_within {quotation : Quotation} {lineStart : Bool}
    {text added other : List Char} {size : Nat} (sound : quotation.IsSound) (ends : EndsWord other)
    (found : piece quotation lineStart (text ++ added) = (size, .closed))
    (within : size + closingLength quotation ((text ++ added).drop size) ≤ text.length) :
    closingLength quotation ((text ++ other).drop size) =
      closingLength quotation ((text ++ added).drop size) := by
  have inside : size ≤ text.length := by omega
  have length := List.length_drop (i := size) (l := text)
  obtain ⟨line, closes⟩ := piece_closes found
  rw [List.drop_append_of_le_length inside] at *
  rw [List.drop_append_of_le_length inside]
  exact (closes_within sound closes (by omega) ends).2

/-- A run within a text does not depend on what follows the text. -/
theorem takeWhile_within {test : Char → Bool} {text added : List Char}
    (inside : ((text ++ added).takeWhile test).length < text.length) (other : List Char) :
    (text ++ other).takeWhile test = (text ++ added).takeWhile test := by
  have ends : (text.takeWhile test).length ≠ text.length := by
    intro whole
    have all := List.takeWhile_eq_self_iff.mp
      ((List.takeWhile_sublist test).eq_of_length whole)
    rw [List.takeWhile_append_of_pos all, List.length_append] at inside
    omega
  rw [List.takeWhile_append, List.takeWhile_append, if_neg ends, if_neg ends]

/-- Whether a text begins with a mark does not depend on what follows it, if it is long enough. -/
theorem isPrefixOf_append {mark text : List Char} (fits : mark.length ≤ text.length)
    (added : List Char) : mark.isPrefixOf (text ++ added) = mark.isPrefixOf text := by
  rw [Bool.eq_iff_iff, List.isPrefixOf_iff_prefix, List.isPrefixOf_iff_prefix]
  constructor
  · exact fun front => List.prefix_of_prefix_length_le front (List.prefix_append text added) fits
  · exact fun front => front.trans (List.prefix_append text added)

/-- A line ends in a newline, in a carriage return or in both. -/
theorem newlineLength_cons (c : Char) (rest : List Char) : newlineLength (c :: rest) =
    if c = '\r' then if rest.head? = some '\n' then 2 else 1 else if c = '\n' then 1 else 0 := by
  by_cases carriage : c = '\r'
  · subst carriage
    cases rest with
    | nil => rfl
    | cons next rest =>
        by_cases feed : next = '\n'
        · subst feed
          rfl
        · rw [newlineLength] <;> simp [feed]
  · by_cases feed : c = '\n'
    · subst feed
      rfl
    · rw [newlineLength] <;> simp [carriage, feed]

/-- A line end within a text does not depend on what follows it, unless a newline does. -/
theorem newlineLength_within {text added other : List Char} (filled : text ≠ [])
    (inside : newlineLength (text ++ added) ≤ text.length)
    (line : newlineLength (text ++ added) < text.length ∨ other.head? ≠ some '\n') :
    newlineLength (text ++ other) = newlineLength (text ++ added) := by
  obtain ⟨c, rest, rfl⟩ := List.exists_cons_of_ne_nil filled
  rw [List.cons_append, List.cons_append] at *
  rw [newlineLength_cons, newlineLength_cons] at *
  cases rest with
  | cons next rest => rfl
  | nil =>
      by_cases carriage : c = '\r'
      · subst carriage
        rcases line with short | line
        · simp only [if_true, List.length_cons, List.length_nil] at short
          split at short <;> omega
        · have line' : added.head? ≠ some '\n' := by
            intro feed
            simp [feed] at inside
          simp [line, line']
      · simp [carriage]

/-- An opening line within a text does not depend on what follows it, unless a newline does. -/
theorem labelLine?_within {mark text added other label : List Char} {size : Nat}
    (found : labelLine? mark (text ++ added) = some (size, label)) (inside : size ≤ text.length)
    (line : size < text.length ∨ other.head? ≠ some '\n') :
    labelLine? mark (text ++ other) = some (size, label) := by
  simp only [labelLine?] at found ⊢
  split at found
  · cases found
  · rename_i complete
    obtain ⟨total, rfl⟩ := Prod.mk.inj (Option.some.inj found)
    have newline := (Bool.or_eq_false_iff.mp (Bool.eq_false_iff.mpr complete)).2
    rw [beq_eq_false_iff_ne] at newline
    have labelEnds : ((text ++ added).takeWhile isLabelPart).length < text.length := by omega
    rw [takeWhile_within labelEnds other]
    generalize (text ++ added).takeWhile isLabelPart = label at *
    have labelFits : label.length ≤ text.length := by omega
    have restLength := List.length_drop (i := label.length) (l := text)
    rw [List.drop_append_of_le_length labelFits] at complete total newline ⊢
    generalize text.drop label.length = rest at *
    have markFits : mark.length ≤ rest.length := by omega
    have tailLength := List.length_drop (i := mark.length) (l := rest)
    rw [isPrefixOf_append markFits] at complete ⊢
    rw [List.drop_append_of_le_length markFits] at complete total newline ⊢
    generalize rest.drop mark.length = tail at *
    have blankFits : ((tail ++ added).takeWhile isIndent).length < tail.length := by omega
    rw [takeWhile_within blankFits other]
    generalize (tail ++ added).takeWhile isIndent = blank at *
    have endLength := List.length_drop (i := blank.length) (l := tail)
    rw [List.drop_append_of_le_length (by omega)] at complete total newline ⊢
    have filled : tail.drop blank.length ≠ [] := List.ne_nil_of_length_pos (by omega)
    have newlineFits : newlineLength (tail.drop blank.length ++ added) ≤
        (tail.drop blank.length).length := by
      omega
    rw [newlineLength_within filled newlineFits (line.imp_left fun _ => by omega), if_neg complete,
      total]

/-- An opening line has a label. -/
theorem labelLine?_label {mark cs label : List Char} {size : Nat}
    (found : labelLine? mark cs = some (size, label)) : IsLabel label ∧ 0 < size := by
  simp only [labelLine?] at found
  split at found
  · cases found
  · rename_i complete
    obtain ⟨rfl, rfl⟩ := Prod.mk.inj (Option.some.inj found)
    obtain ⟨parts, newline⟩ := Bool.or_eq_false_iff.mp (Bool.eq_false_iff.mpr complete)
    rw [beq_eq_false_iff_ne] at newline
    refine ⟨⟨?_, fun c member => List.mem_takeWhile_imp member⟩, by omega⟩
    exact List.isEmpty_eq_false_iff.mp (Bool.or_eq_false_iff.mp parts).1

/-- The opening of a document has a label. -/
theorem documentOpening?_label {cs label : List Char} {size : Nat} {isNowdoc : Bool}
    (found : documentOpening? cs = some (size, label, isNowdoc)) : IsLabel label ∧ 0 < size := by
  simp only [documentOpening?] at found
  split at found
  · cases found
  · rename_i lineSize label' foundLine
    obtain ⟨sound, positive⟩ := labelLine?_label foundLine
    obtain ⟨rfl, rest⟩ := Prod.mk.inj (Option.some.inj found)
    obtain ⟨rfl, -⟩ := Prod.mk.inj rest
    exact ⟨sound, by omega⟩

/-- A single quotation mark stands in front of a label, or none. -/
theorem labelMark_length (cs : List Char) : (labelMark cs).length ≤ 1 := by
  refine (List.length_filter_le _ _).trans ?_
  rw [List.length_take]
  omega

/-- The opening of a document within a text does not depend on what follows it, unless a newline
does. -/
theorem documentOpening?_within {text added other label : List Char} {size : Nat} {isNowdoc : Bool}
    (found : documentOpening? (text ++ added) = some (size, label, isNowdoc))
    (inside : size ≤ text.length) (line : size < text.length ∨ other.head? ≠ some '\n') :
    documentOpening? (text ++ other) = some (size, label, isNowdoc) := by
  simp only [documentOpening?] at found ⊢
  split at found
  · cases found
  · rename_i lineSize label' foundLine
    have filled := (labelLine?_label foundLine).2
    obtain ⟨total, rest⟩ := Prod.mk.inj (Option.some.inj found)
    have indentEnds : ((text ++ added).takeWhile isIndent).length < text.length := by omega
    rw [takeWhile_within indentEnds other]
    generalize (text ++ added).takeWhile isIndent = indent at *
    have tailLength := List.length_drop (i := indent.length) (l := text)
    rw [List.drop_append_of_le_length indentEnds.le] at foundLine found total rest ⊢
    generalize text.drop indent.length = tail at *
    have same : labelMark (tail ++ other) = labelMark (tail ++ added) := by
      have filled : tail ≠ [] := List.ne_nil_of_length_pos (by omega)
      obtain ⟨c, tail, rfl⟩ := List.exists_cons_of_ne_nil filled
      rfl
    rw [same]
    have markLength := labelMark_length (tail ++ added)
    generalize labelMark (tail ++ added) = mark at *
    rw [List.drop_append_of_le_length (by omega)] at foundLine ⊢
    have innerLength := List.length_drop (i := mark.length) (l := tail)
    rw [labelLine?_within foundLine (by omega) (line.imp_left fun _ => by omega)]
    exact found

end Untranslated.Php
