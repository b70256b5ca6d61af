/-
This file proves that a quoted text is one token if no interpolation begins in it, and begins a
template if one does.
-/

import Untranslated.Proofs.Php.Lexer.Reaches

namespace Untranslated.Php

/-- Whether an interpolation begins in a text. A backslash takes the character with it that it
escapes. -/
def interpolated : List Char → Bool
  | [] => false
  | '\\' :: c :: rest => if isEscapable c then interpolated rest else interpolated (c :: rest)
  | c :: rest => beginsInterpolation (c :: rest) || interpolated rest

/-- A text has an interpolation at its start or behind its first character. -/
theorem interpolated_cons (c : Char) (rest : List Char) : interpolated (c :: rest) =
    (beginsInterpolation (c :: rest) || interpolated ((c :: rest).drop (stride (c :: rest)))) := by
  rw [interpolated.eq_def]
  split
  · rename_i same
    cases same
  · rename_i next others same
    obtain ⟨rfl, rfl⟩ := List.cons.inj same
    have plain : beginsInterpolation ('\\' :: next :: others) = false := rfl
    rw [plain, Bool.false_or, stride]
    split <;> rfl
  · rename_i first others single same
    obtain ⟨rfl, rfl⟩ := List.cons.inj same
    have one : stride (c :: rest) = 1 := by
      unfold stride
      split
      · rename_i next others same
        obtain ⟨rfl, rfl⟩ := List.cons.inj same
        exact absurd rfl (single next others rfl)
      · rfl
    rw [one]
    rfl

/-- These characters neither begin an interpolation nor escape another one. -/
def isInert (c : Char) : Bool := c != '\\' && c != '$' && c != '\x7b'

/-- Inert characters in front do not matter. -/
theorem interpolated_inert {front : List Char} (inert : ∀ c ∈ front, isInert c = true)
    (rest : List Char) : interpolated (front ++ rest) = interpolated rest := by
  induction front with
  | nil => rfl
  | cons c front inductionHypothesis =>
      obtain ⟨own, others⟩ := List.forall_mem_cons.mp inert
      simp only [isInert, Bool.and_eq_true, bne_iff_ne, ne_eq] at own
      obtain ⟨⟨noSlash, noDollar⟩, noBrace⟩ := own
      have plain : beginsInterpolation (c :: (front ++ rest)) = false := by
        unfold beginsInterpolation
        split <;> simp_all
      have one : stride (c :: (front ++ rest)) = 1 := by
        unfold stride
        split <;> simp_all
      rw [List.cons_append, interpolated_cons, plain, one, Bool.false_or, List.drop_succ_cons,
        List.drop_zero, inductionHypothesis others]

/-- Whether an interpolation begins is told by two characters. -/
theorem interpolated_take {count : Nat} (two : 2 ≤ count) (cs : List Char) :
    interpolated (cs.take count) = (beginsInterpolation cs ||
      interpolated ((cs.drop (stride cs)).take (count - stride cs))) := by
  match cs with
  | [] => simp [interpolated, beginsInterpolation]
  | [c] =>
      have one : stride [c] = 1 := by
        unfold stride
        split
        · rename_i same
          cases same
        · rfl
      rw [List.take_of_length_le (by simpa using Nat.le_of_succ_le two), interpolated_cons, one]
      simp
  | c :: next :: rest =>
      obtain ⟨count, rfl⟩ := Nat.exists_eq_add_of_le' two
      obtain ⟨begins, same, -⟩ := stride_append c next [] (rest.take count) rest
      rw [show (c :: next :: rest).take (count + 2) = c :: next :: rest.take count from rfl,
        interpolated_cons]
      simp only [List.cons_append, List.nil_append] at begins same
      rw [begins, same, ← List.take_succ_cons, ← List.take_succ_cons, List.drop_take]

section

variable {quotation : Quotation} {lineStart : Bool} {cs : List Char} {size : Nat}

/-- There is text where an interpolation is found. -/
theorem filled_of_interpolation (found : piece quotation lineStart cs = (size, .interpolation)) :
    cs ≠ [] := by
  rintro rfl
  cases found

/-- A text up to its interpolation has one. -/
theorem Spans.isInterpolated {ending : PieceEnd} (spans : Spans quotation lineStart cs size ending)
    (ended : ending = .interpolation) {count : Nat} (enough : size + 2 ≤ count) :
    interpolated (cs.take count) = true := by
  induction spans generalizing count with
  | unclosed | closed => cases ended
  | interpolation filled stays begins =>
      rw [interpolated_take (by omega), begins]
      rfl
  | onward stays plain further inductionHypothesis =>
      rw [interpolated_take (by omega), inductionHypothesis ended (by omega), Bool.or_true]

/-- A piece that ends at an interpolation has one there. -/
theorem interpolated_piece (found : piece quotation lineStart cs = (size, .interpolation))
    {count : Nat} (enough : size + 2 ≤ count) : interpolated (cs.take count) = true :=
  (spans_iff.mpr found).isInterpolated rfl enough

/-- A text up to its closing mark has none. -/
theorem Spans.isPlain {ending : PieceEnd}
    (spans : Spans quotation lineStart cs size ending) (closed : ending = .closed) {count : Nat}
    (positive : 0 < count) (inert : ∀ c ∈ (cs.drop size).take count, isInert c = true) :
    interpolated (cs.take (size + count)) = false := by
  induction spans with
  | unclosed | interpolation => cases closed
  | closed filled closes =>
      rw [List.drop_zero] at inert
      rw [Nat.zero_add, ← List.append_nil (List.take count _), interpolated_inert inert]
      rfl
  | @onward lineStart c rest size ending stays plain further inductionHypothesis =>
      have left : size + stride (c :: rest) + count - stride (c :: rest) = size + count := by omega
      have strides := stride_positive (c :: rest)
      rw [interpolated_take (by omega), plain, Bool.false_or, left]
      refine inductionHypothesis closed ?_
      rwa [List.drop_drop, Nat.add_comm]

/-- A piece that ends at its closing has no interpolation, and neither has the closing. -/
theorem not_interpolated_piece (found : piece quotation lineStart cs = (size, .closed))
    {count : Nat} (positive : 0 < count)
    (inert : ∀ c ∈ (cs.drop size).take count, isInert c = true) :
    interpolated (cs.take (size + count)) = false :=
  (spans_iff.mpr found).isPlain rfl positive inert

end

/-- The characters of a closing label are inert. -/
theorem isInert_of_isClosingChar {c : Char} (closing : isClosingChar c = true) :
    isInert c = true := by
  simp only [isInert, Bool.and_eq_true, bne_iff_ne]
  exact ⟨⟨isClosingChar_ne closing (by decide), isClosingChar_ne closing (by decide)⟩,
    isClosingChar_ne closing (by decide)⟩

/-- The closing of a quoted text has nothing to interpolate. -/
theorem closing_inert {quotation : Quotation} (sound : quotation.IsSound) {lineStart : Bool}
    {cs : List Char} (closes : quotation.closes lineStart cs = true) :
    ∀ c ∈ cs.take (closingLength quotation cs), isInert c = true := by
  cases quotation with
  | double | shell =>
      obtain ⟨rest, rfl⟩ := List.head?_eq_some_iff.mp (eq_of_beq closes)
      intro c member
      obtain rfl := List.mem_singleton.mp member
      decide
  | document label =>
      obtain ⟨size, found⟩ := Option.isSome_iff_exists.mp (Bool.and_eq_true_iff.mp closes).2
      obtain ⟨indent, after, rfl, indented, rfl, -⟩ := (closingLabel?_eq_some sound).mp found
      rw [closingLength, found, Option.getD_some, ← List.append_assoc, ← List.length_append,
        List.take_left]
      intro c member
      refine isInert_of_isClosingChar (Bool.or_eq_true_iff.mpr ?_)
      rcases List.mem_append.mp member with member | member
      · exact .inl (indented c member)
      · exact .inr (sound.parts c member)

/-- A quoted text up to its closing has no interpolation. -/
theorem not_interpolated_quoted {quotation : Quotation} (sound : quotation.IsSound)
    {lineStart : Bool} {cs : List Char} {opening size : Nat}
    (inert : ∀ c ∈ cs.take opening, isInert c = true)
    (found : piece quotation lineStart (cs.drop opening) = (size, .closed)) :
    interpolated (cs.take
      (opening + size + closingLength quotation ((cs.drop opening).drop size))) = false := by
  obtain ⟨lineStart', closes⟩ := piece_closes found
  rw [Nat.add_assoc, List.take_add, interpolated_inert inert]
  exact not_interpolated_piece found (closingLength_positive sound _) (closing_inert sound closes)

/-- A run of characters of a closing label is inert. -/
theorem takeWhile_inert {test : Char → Bool}
    (plain : ∀ c, test c = true → isClosingChar c = true) (cs : List Char) :
    ∀ c ∈ cs.take (cs.takeWhile test).length, isInert c = true := by
  rw [← List.prefix_iff_eq_take.mp (List.takeWhile_prefix test)]
  exact fun c member => isInert_of_isClosingChar (plain c (List.mem_takeWhile_imp member))

/-- The opening line of a document is inert. -/
theorem labelLine?_inert {mark cs label : List Char} {size : Nat}
    (found : labelLine? mark cs = some (size, label)) (inert : ∀ c ∈ mark, isInert c = true) :
    ∀ c ∈ cs.take size, isInert c = true := by
  simp only [labelLine?] at found
  split at found
  · cases found
  · rename_i complete
    simp only [Bool.or_eq_true, not_or, Bool.not_eq_true, Bool.not_eq_false'] at complete
    obtain ⟨rfl, rfl⟩ := Prod.mk.inj (Option.some.inj found)
    obtain ⟨after, same⟩ := List.isPrefixOf_iff_prefix.mp complete.1.2
    have newline (cs : List Char) : ∀ c ∈ cs.take (newlineLength cs), isInert c = true := by
      unfold newlineLength
      split <;> simp <;> decide
    have marked : (cs.drop (cs.takeWhile isLabelPart).length).take mark.length = mark := by
      rw [← same, List.take_left]
    simp only [List.take_add, List.forall_mem_append, marked, ← List.drop_drop]
    refine ⟨⟨⟨takeWhile_inert (fun c is => ?_) cs, inert⟩, takeWhile_inert (fun c is => ?_) _⟩,
      newline _⟩
    · exact Bool.or_eq_true_iff.mpr (.inr is)
    · exact Bool.or_eq_true_iff.mpr (.inl is)

/-- The opening line of a document has nothing to interpolate. -/
theorem documentOpening?_inert {cs label : List Char} {size : Nat} {isNowdoc : Bool}
    (found : documentOpening? cs = some (size, label, isNowdoc)) :
    ∀ c ∈ cs.take size, isInert c = true := by
  simp only [documentOpening?] at found
  split at found
  · cases found
  · rename_i line label' foundLine
    obtain ⟨rfl, -⟩ := Prod.mk.inj (Option.some.inj found)
    have marks (cs : List Char) : ∀ c ∈ labelMark cs, isInert c = true := by
      intro c member
      have is := (List.mem_filter.mp member).2
      rcases Bool.or_eq_true_iff.mp is with is | is <;> rw [eq_of_beq is] <;> decide
    have first (cs : List Char) : cs.take (labelMark cs).length = labelMark cs := by
      cases cs with
      | nil => rfl
      | cons c rest =>
          simp only [labelMark, List.take_succ_cons, List.take_zero, List.filter_cons]
          split <;> rfl
    have indents : ∀ c ∈ cs.take (cs.takeWhile isIndent).length, isInert c = true :=
      takeWhile_inert (fun c is => Bool.or_eq_true_iff.mpr (.inl is)) cs
    simp only [List.take_add, List.forall_mem_append, first, ← List.drop_drop]
    exact ⟨⟨indents, marks _⟩, labelLine?_inert foundLine (marks _)⟩

/-- A quoted text may have one of these letters in front. -/
def IsLetter (letter : List Char) : Prop := letter = [] ∨ letter = ['b'] ∨ letter = ['B']

/-- The letter in front of a quotation is inert. -/
theorem IsLetter.inert {letter : List Char} (isLetter : IsLetter letter) :
    ∀ c ∈ letter, isInert c = true := by
  rcases isLetter with rfl | rfl | rfl <;> simp [isInert]

/-- Behind the letter and the mark stands the body. -/
theorem drop_marks (letter marks rest : List Char) :
    (letter ++ (marks ++ rest)).drop (letter.length + marks.length) = rest := by
  rw [← List.drop_drop, List.drop_left, List.drop_left]

/-- In front of the body stand the letter and the mark. -/
theorem take_marks (letter marks rest : List Char) :
    (letter ++ (marks ++ rest)).take (letter.length + marks.length) = letter ++ marks := by
  rw [List.take_length_add_append, List.take_left]

/-- What is known of the text of a quoted token. A template opens in front of an interpolation. -/
def LexStep.Spells (cs : List Char) : LexStep → Prop
  | .lexeme .singleQuoted _ size _ => ∃ letter body, IsLetter letter ∧
      cs.take size = letter ++ '\'' :: (body ++ ['\''])
  | .lexeme .doubleQuoted _ size _ => ∃ letter body, IsLetter letter ∧
      cs.take size = letter ++ '"' :: (body ++ ['"']) ∧ interpolated (cs.take size) = false
  | .lexeme .heredoc _ size _ => interpolated (cs.take size) = false
  | .lexeme .templateOpening _ size frames => ∃ quotation outer plain,
      frames = .quoted quotation :: outer ∧
        piece quotation false (cs.drop size) = (plain, .interpolation) ∧
        ∀ c ∈ cs.take size, isInert c = true
  | _ => True

/-- A text in single quotes ends at a quote. -/
theorem singleQuotedLength?_eq_some {cs : List Char} {size : Nat}
    (found : singleQuotedLength? cs = some size) :
    ∃ body rest, cs = body ++ '\'' :: rest ∧ size = body.length + 1 := by
  fun_induction singleQuotedLength? cs generalizing size with
  | case1 => cases found
  | case2 rest =>
      obtain rfl := Option.some.inj found
      exact ⟨[], rest, rfl, rfl⟩
  | case3 c rest inductionHypothesis =>
      obtain ⟨inner, foundInner, rfl⟩ := Option.map_eq_some_iff.mp found
      obtain ⟨body, more, rfl, rfl⟩ := inductionHypothesis foundInner
      exact ⟨'\\' :: c :: body, more, rfl, rfl⟩
  | case4 c rest _ _ inductionHypothesis =>
      obtain ⟨inner, foundInner, rfl⟩ := Option.map_eq_some_iff.mp found
      obtain ⟨body, more, rfl, rfl⟩ := inductionHypothesis foundInner
      exact ⟨c :: body, more, rfl, rfl⟩

section

variable {frames : List Frame} {cs : List Char}

/-- A text in single quotes ends at its quote. -/
theorem singleQuotedStep_spells {letter : List Char} (isLetter : IsLetter letter)
    (rest : List Char) : (singleQuotedStep (letter.length + 1) frames
      (letter ++ '\'' :: rest)).Spells (letter ++ '\'' :: rest) := by
  have inner : (letter ++ '\'' :: rest).drop (letter.length + 1) = rest :=
    drop_marks letter ['\''] rest
  unfold singleQuotedStep
  rw [inner]
  split
  · rename_i size found
    obtain ⟨body, more, rfl, rfl⟩ := singleQuotedLength?_eq_some found
    refine ⟨letter, body, isLetter, ?_⟩
    rw [Nat.add_assoc, List.take_length_add_append, Nat.add_comm 1, List.take_succ_cons,
      List.take_length_add_append]
    rfl
  · trivial

/-- A template opens in front of an interpolation. -/
theorem templateOpening_spells {quotation : Quotation} {lineStart : Bool} {opening size : Nat}
    (inert : ∀ c ∈ cs.take opening, isInert c = true)
    (found : piece quotation lineStart (cs.drop opening) = (size, .interpolation)) :
    (LexStep.lexeme .templateOpening "" opening (.quoted quotation :: frames)).Spells cs := by
  have stays : quotation.closes lineStart (cs.drop opening) = false := by
    rw [Bool.eq_false_iff]
    intro closes
    rw [piece_closed (filled_of_interpolation found) closes] at found
    cases found
  exact ⟨quotation, frames, size, rfl, piece_lineStart stays ▸ found, inert⟩

/-- A quoted text is known if it is known where it closes without an interpolation. -/
theorem quotedStep_spells {whole : Shape} {quotation : Quotation} (sound : quotation.IsSound)
    {opening : Nat} (inert : ∀ c ∈ cs.take opening, isInert c = true)
    (closed : ∀ lineStart size total,
      piece quotation lineStart (cs.drop opening) = (size, .closed) →
        total = opening + size + closingLength quotation ((cs.drop opening).drop size) →
          interpolated (cs.take total) = false →
            (LexStep.lexeme whole "" total frames).Spells cs) :
    (quotedStep whole quotation opening frames cs).Spells cs := by
  rw [quotedStep_eq]
  split
  · rename_i size found
    exact closed _ size _ found rfl (not_interpolated_quoted sound inert found)
  · rename_i size found
    exact templateOpening_spells inert found
  · trivial

/-- A text in double quotes has no interpolation, or a template opens. -/
theorem doubleQuotedStep_spells {letter : List Char} (isLetter : IsLetter letter)
    (rest : List Char) : (quotedStep .doubleQuoted .double (letter.length + 1) frames
      (letter ++ '"' :: rest)).Spells (letter ++ '"' :: rest) := by
  have inner : (letter ++ '"' :: rest).drop (letter.length + 1) = rest :=
    drop_marks letter ['"'] rest
  have opening : (letter ++ '"' :: rest).take (letter.length + 1) = letter ++ ['"'] :=
    take_marks letter ['"'] rest
  have sound : Quotation.double.IsSound := trivial
  refine quotedStep_spells sound ?_ ?_
  · rw [opening]
    exact List.forall_mem_append.mpr ⟨isLetter.inert, by simp [isInert]⟩
  · intro lineStart size total found same plain
    obtain ⟨lineStart', closes⟩ := piece_closes found
    rw [inner] at closes
    obtain ⟨more, quote⟩ := List.head?_eq_some_iff.mp (eq_of_beq closes)
    refine ⟨letter, rest.take size, isLetter, ?_, plain⟩
    have one : total = letter.length + 1 + (size + 1) := same.trans (Nat.add_assoc _ _ _)
    rw [one, List.take_add, opening, inner, List.take_add, quote]
    simp

/-- The same for a text in backquotes. -/
theorem shellQuotedStep_spells (rest : List Char) :
    (quotedStep .shellQuoted .shell 1 frames ('\x60' :: rest)).Spells ('\x60' :: rest) := by
  have sound : Quotation.shell.IsSound := trivial
  exact quotedStep_spells sound (by simp [isInert]) fun _ _ _ _ _ _ => trivial

/-- The same for a document. -/
theorem documentStep_spells {letter : List Char} (isLetter : IsLetter letter)
    (rest : List Char) : (documentStep letter.length frames
      (letter ++ '<' :: '<' :: '<' :: rest)).Spells (letter ++ '<' :: '<' :: '<' :: rest) := by
  have inner : (letter ++ '<' :: '<' :: '<' :: rest).drop (letter.length + 3) = rest :=
    drop_marks letter ['<', '<', '<'] rest
  have marks : (letter ++ '<' :: '<' :: '<' :: rest).take (letter.length + 3) =
      letter ++ ['<', '<', '<'] := take_marks letter ['<', '<', '<'] rest
  unfold documentStep
  rw [inner]
  split
  · trivial
  · rename_i size label isNowdoc found
    have inert : ∀ c ∈ (letter ++ '<' :: '<' :: '<' :: rest).take (letter.length + 3 + size),
        isInert c = true := by
      rw [List.take_add, marks, inner]
      exact List.forall_mem_append.mpr
        ⟨List.forall_mem_append.mpr ⟨isLetter.inert, by simp [isInert]⟩,
          documentOpening?_inert found⟩
    simp only
    split
    · split <;> trivial
    · have sound : (Quotation.document label).IsSound := (documentOpening?_label found).1
      exact quotedStep_spells sound inert fun _ _ _ _ _ plain => plain

/-- A word is no quoted text. -/
theorem wordStep_spells : (wordStep frames cs).Spells cs := by
  unfold wordStep
  simp only
  split <;> trivial

/-- A number is no quoted text. -/
theorem numberStep_spells : (numberStep frames cs).Spells cs := by
  unfold numberStep
  simp only
  split <;> trivial

/-- The letters of the table are those of quotations. -/
theorem Letter.isLetter (letter : Letter) : IsLetter letter.text := by
  cases letter
  · exact .inl rfl
  · exact .inr (.inl rfl)
  · exact .inr (.inr rfl)

/-- The characters that tell a quotation are the opening of its text. -/
theorem Beginning.step_spells {entry : Beginning} (begins : passes entry.tests cs = true) :
    (entry.step frames cs).Spells cs := by
  cases entry with
  | blank | markup | lineComment | hash | mark | unknown => trivial
  | word => exact wordStep_spells
  | number | fraction => exact numberStep_spells
  | blockComment =>
      simp only [Beginning.step]
      split <;> trivial
  | singleQuoted letter =>
      obtain ⟨rest, rfl⟩ := passes_spelled_iff.mp begins
      rw [List.append_assoc]
      exact singleQuotedStep_spells letter.isLetter rest
  | doubleQuoted letter =>
      obtain ⟨rest, rfl⟩ := passes_spelled_iff.mp begins
      rw [List.append_assoc]
      exact doubleQuotedStep_spells letter.isLetter rest
  | shellQuoted =>
      obtain ⟨rest, rfl⟩ := passes_spelled_iff.mp begins
      exact shellQuotedStep_spells rest
  | document letter =>
      obtain ⟨rest, rfl⟩ := passes_spelled_iff.mp begins
      rw [List.append_assoc]
      exact documentStep_spells letter.isLetter rest

/-- It is known what the text of a step in code is like. -/
theorem codeStep_spells {state : ReaderState} : (codeStep state cs).Spells cs := by
  by_cases filled : cs = []
  · subst filled
    trivial
  · rw [codeStep_eq state filled]
    exact Beginning.step_spells (beginning_passes state.operand cs)

/-- It is known what the text of a step in a quotation is like. -/
theorem quotedTextStep_spells {state : ReaderState} {quotation : Quotation} :
    (quotedTextStep quotation state cs).Spells cs := by
  unfold quotedTextStep
  split
  · trivial
  · trivial
  · split <;> trivial
  · trivial

/-- It is known what the text of a step in a subscript is like. -/
theorem offsetStep_spells {state : ReaderState} : (offsetStep state cs).Spells cs := by
  unfold offsetStep
  split
  · trivial
  · trivial
  · trivial
  · trivial
  · split
    · exact wordStep_spells
    · split <;> trivial
  · trivial

/-- It is known what the text of a step at a property is like. -/
theorem propertyStep_spells {state : ReaderState} : (propertyStep state cs).Spells cs := by
  unfold propertyStep
  split
  · trivial
  · exact wordStep_spells

/-- A step in quotation marks takes a whole text, or opens a template where one has an
interpolation. -/
theorem lexStep_spells (state : ReaderState) (cs : List Char) : (lexStep state cs).Spells cs := by
  unfold lexStep
  split
  · exact quotedTextStep_spells
  · exact wordStep_spells
  · exact offsetStep_spells
  · exact propertyStep_spells
  · exact codeStep_spells

end

end Untranslated.Php
