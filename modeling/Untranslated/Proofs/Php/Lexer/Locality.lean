/-
This file proves that what the reader does in front of a comment does not depend on the comment.
Its steps up to a place between two tokens of code are the same for both texts that follow.
-/

import Untranslated.Proofs.Php.Lexer.Reaches

namespace Untranslated.Php

section

variable {state : ReaderState} {front after other : List Char}

/-- Outside of quotations a step is one in code. -/
theorem lexStep_code (outside : state.inCode = true) (cs : List Char) :
    lexStep state cs = codeStep state cs := by
  unfold lexStep
  unfold ReaderState.inCode at outside
  split <;> rename_i top <;> simp [top, Frame.isQuoted, Frame.isInner] at outside
  rfl

/-- In code the beginning of the text tells the step. -/
theorem lexStep_beginning (code : state.inCode = true) {cs : List Char} (filled : cs ≠ []) :
    lexStep state cs = (beginning state.operand cs).step state.frames cs :=
  (lexStep_code code cs).trans (codeStep_eq state filled)

/-- A number that begins with a point has a digit after it. -/
theorem fraction_length {cs : List Char} (fits : passes Beginning.fraction.tests cs = true) :
    2 ≤ realLength cs := by
  match cs with
  | [] => cases fits
  | [c] => simp [Beginning.tests, passes] at fits
  | c :: d :: rest =>
      obtain ⟨rfl, digit⟩ : c = '.' ∧ d.isDigit = true := by
        simpa [Beginning.tests, passes] using fits
      exact realLength_point digit rest

/-- A step that ends inside of a text has its beginning there. -/
theorem Beginning.tests_length {entry : Beginning} {frames : List Frame} {cs : List Char}
    (fits : passes entry.tests cs = true) (within : Within front (entry.step frames cs)) :
    entry.tests.length ≤ front.length := by
  have ⟨whole, inside⟩ := within
  cases entry with
  | blank => exact inside
  | word =>
      obtain ⟨fits, filled⟩ := wordStep_within within
      exact (List.length_pos_iff.mpr filled).trans_le fits
  | number => exact (numberStep_within within).1
  | fraction => exact (fraction_length fits).trans (numberStep_within within).2.2
  | markup | lineComment | hash => exact (Nat.le_add_right _ _).trans inside
  | blockComment =>
      simp only [Beginning.step] at whole inside
      split at inside
      · exact (Nat.le_add_right 2 _).trans inside
      · rename_i unclosed
        rw [unclosed] at whole
        cases whole
  | mark spelling =>
      rw [Beginning.tests, length_spelled, String.length_toList]
      exact inside
  | singleQuoted letter =>
      obtain ⟨size, -, fits⟩ := singleQuotedStep_within within
      rw [Beginning.tests, length_spelled, List.length_append, List.length_singleton]
      omega
  | doubleQuoted letter => simpa [Beginning.tests] using quotedStep_fits within
  | shellQuoted => exact quotedStep_fits within
  | document letter => simpa [Beginning.tests] using documentStep_fits within
  | unknown => exact Nat.zero_le _

/-- A settled measure of what follows some characters gives the same extra. -/
theorem extra_same {filler : Filler} {measure : List Char → Nat} (settled : Settled measure)
    {count : Nat}
    (within : Within front (.extra filler (count + measure ((front ++ after).drop count))))
    (within' : Within front (.extra filler (count + measure ((front ++ other).drop count))))
    (long : count ≤ front.length) :
    LexStep.extra filler (count + measure ((front ++ other).drop count)) =
      .extra filler (count + measure ((front ++ after).drop count)) := by
  have inside := within.inside
  have inside' := within'.inside
  have length := List.length_drop (i := count) (l := front)
  simp only [LexStep.size, List.drop_append_of_le_length long] at inside inside' ⊢
  have same : measure (front.drop count ++ other) = measure (front.drop count ++ after) :=
    settled.same (by omega) (by omega)
  rw [same]

/-- A closed comment stays closed, whatever follows. -/
theorem blockComment_same {frames : List Frame} (long : 2 ≤ front.length)
    (within : Within front (Beginning.blockComment.step frames (front ++ after))) :
    ∃ size, ∀ frames,
      Beginning.blockComment.step frames (front ++ after) = .extra .blockComment size ∧
        Beginning.blockComment.step frames (front ++ other) = .extra .blockComment size := by
  obtain ⟨whole, inside⟩ := within
  have length := List.length_drop (i := 2) (l := front)
  simp only [Beginning.step, List.drop_append_of_le_length long] at whole inside ⊢
  cases closes : blockCommentLength? (front.drop 2 ++ after) with
  | none =>
      rw [closes] at whole
      cases whole
  | some size =>
      rw [closes] at inside
      simp only [LexStep.size] at inside
      have inner := closes_blockComment.within closes (by omega)
      rw [closes_blockComment.append other inner]
      exact ⟨2 + size, fun _ => ⟨rfl, rfl⟩⟩

/-- Two texts have the same step at a beginning if it ends inside of their common front. -/
theorem Beginning.step_same {entry : Beginning} (filled : front ≠ [])
    (begins : passes entry.tests front = true) (reaches : Reaches after state front)
    (reaches' : Reaches other state front) (slash : other.head? = some '/')
    (is : lexStep state (front ++ after) = entry.step state.frames (front ++ after))
    (is' : lexStep state (front ++ other) = entry.step state.frames (front ++ other)) :
    lexStep state (front ++ other) = lexStep state (front ++ after) := by
  have within := is ▸ reaches.within filled
  have within' := is' ▸ reaches'.within filled
  have long := passes_length begins
  have double : Quotation.double.IsSound := trivial
  have shell : Quotation.shell.IsSound := trivial
  have both (same : entry.step state.frames (front ++ other) =
      entry.step state.frames (front ++ after)) :
      lexStep state (front ++ other) = lexStep state (front ++ after) :=
    is'.trans (same.trans is.symm)
  cases entry with
  | doubleQuoted letter => exact quotedStep_same double filled reaches reaches' slash is is'
  | shellQuoted => exact quotedStep_same shell filled reaches reaches' slash is is'
  | document letter => exact documentStep_same filled reaches reaches' slash is is'
  | blank | mark => exact both rfl
  | word => exact both (wordStep_same within within')
  | number | fraction => exact both (numberStep_same within within')
  | singleQuoted letter => exact both (singleQuotedStep_same within)
  | markup => exact both (extra_same settled_markupLength within within' long)
  | lineComment => exact both (extra_same settled_lineCommentLength within within' long)
  | hash => exact both (extra_same settled_hashLength within within' long)
  | blockComment =>
      obtain ⟨size, same⟩ := blockComment_same long within
      exact both ((same _).2.trans (same _).1.symm)
  | unknown => cases within.whole

/-- A step in code before a place does not depend on what follows the place. -/
theorem codeStep_same (code : state.inCode = true) (filled : front ≠ [])
    (reaches : Reaches after state front) (reaches' : Reaches other state front)
    (slash : other.head? = some '/') :
    lexStep state (front ++ other) = lexStep state (front ++ after) := by
  have begins {added : List Char} (reaches : Reaches added state front) :
      lexStep state (front ++ added) =
        (beginning state.operand front).step state.frames (front ++ added) := by
    have is : lexStep state (front ++ added) = _ :=
      lexStep_beginning code (List.append_ne_nil_of_left_ne_nil filled added)
    have within := reaches.within filled
    rw [is] at within ⊢
    rw [beginning_front (Beginning.tests_length (beginning_passes _ _) within)]
  exact Beginning.step_same filled (beginning_passes state.operand front) reaches reaches' slash
    (begins reaches) (begins reaches')

/-- After a variable in a quotation the reader is not in code. -/
theorem framesAfterName_outside {outer : List Frame}
    (quoted : outer.head?.any Frame.isQuoted = true) (rest : List Char) (operand lineStart : Bool) :
    (ReaderState.mk (framesAfterName outer rest) operand lineStart).inCode = false := by
  have inner : (ReaderState.mk outer operand lineStart).inCode = false := by
    cases outer with
    | nil => cases quoted
    | cons frame rest =>
        have quoted : frame.isQuoted = true := by simpa using quoted
        simp [ReaderState.inCode, quoted]
  unfold framesAfterName
  split
  · rfl
  · split
    · rfl
    · exact inner
  · exact inner

/-- A property does not begin at the end of the text. -/
theorem Reaches.property_long {outer : List Frame} {operand lineStart : Bool} {rest : List Char}
    (reaches : Reaches after ⟨.property :: outer, operand, lineStart⟩ front)
    (arrow : front ++ after = '-' :: '>' :: rest) : 3 ≤ front.length := by
  have filled := reaches.filled rfl
  obtain ⟨-, inside, further⟩ := reaches.goes filled
  have step : lexStep ⟨.property :: outer, operand, lineStart⟩ (front ++ after) =
      .lexeme .mark "->" 2 (.property :: outer) := by
    rw [arrow]
    rfl
  rw [step] at inside further
  simp only [LexStep.size] at inside further
  have more := List.length_pos_iff.mpr (further.filled rfl)
  rw [List.length_drop] at more
  omega

/-- A subscript or a property follows a variable, or the quotation goes on. -/
theorem framesAfterName_cases (outer : List Frame) (cs : List Char) :
    (∃ rest, cs = '[' :: rest) ∨
      (∃ c rest, cs = '-' :: '>' :: c :: rest ∧ isNameStart c = true) ∨
      framesAfterName outer cs = outer := by
  unfold framesAfterName
  split
  · exact .inl ⟨_, rfl⟩
  · split
    · rename_i named
      exact .inr (.inl ⟨_, _, rfl, named⟩)
    · exact .inr (.inr rfl)
  · exact .inr (.inr rfl)

theorem framesAfterName_property {outer : List Frame} {c : Char} (named : isNameStart c = true)
    (rest : List Char) : framesAfterName outer ('-' :: '>' :: c :: rest) = .property :: outer := by
  simp [framesAfterName, named]

/-- What follows a variable before a place does not depend on what follows the place. -/
theorem framesAfterName_same {outer : List Frame} {operand lineStart : Bool}
    (filled : front ≠ []) (slash : other.head? = some '/')
    (reaches : Reaches after ⟨framesAfterName outer (front ++ after), operand, lineStart⟩ front) :
    framesAfterName outer (front ++ other) = framesAfterName outer (front ++ after) := by
  obtain ⟨others, rfl⟩ := List.head?_eq_some_iff.mp slash
  rcases framesAfterName_cases outer (front ++ after) with
    ⟨rest, bracket⟩ | ⟨c, rest, arrow, named⟩ | plain
  · obtain ⟨front, rfl⟩ : ∃ more, front = '[' :: more := by
      cases front with
      | nil => exact absurd rfl filled
      | cons c more => exact ⟨more, by rw [(List.cons.inj bracket).1]⟩
    rfl
  · have long : 3 ≤ front.length := by
      have reaches := reaches
      rw [arrow, framesAfterName_property named] at reaches
      exact reaches.property_long arrow
    match front with
    | a :: b :: d :: more =>
        obtain ⟨rfl, rfl, rfl, -⟩ : a = '-' ∧ b = '>' ∧ d = c ∧ _ := by simpa using arrow
        exact (framesAfterName_property named _).trans (framesAfterName_property named _).symm
  · rcases framesAfterName_cases outer (front ++ '/' :: others) with
      ⟨rest, bracket⟩ | ⟨c, rest, arrow, named⟩ | plain'
    · cases front with
      | nil => exact absurd rfl filled
      | cons c more =>
          obtain ⟨rfl, -⟩ := List.cons.inj bracket
          rfl
    · match front with
      | [] | [_] => simp at arrow
      | [a, b] =>
          obtain ⟨rfl, rfl, rfl, -⟩ : a = '-' ∧ b = '>' ∧ '/' = c ∧ _ := by simpa using arrow
          exact absurd named (by decide)
      | a :: b :: d :: more =>
          obtain ⟨rfl, rfl, rfl, -⟩ : a = '-' ∧ b = '>' ∧ d = c ∧ _ := by simpa using arrow
          exact (framesAfterName_property named _).trans (framesAfterName_property named _).symm
    · exact plain'.trans plain.symm

/-- The same for a step at a variable in a quotation. -/
theorem variableStep_same {outer : List Frame} (top : state.frames = .variable :: outer)
    (quoted : outer.head?.any Frame.isQuoted = true) (filled : front ≠ [])
    (reaches : Reaches after state front) (reaches' : Reaches other state front)
    (slash : other.head? = some '/') :
    lexStep state (front ++ other) = lexStep state (front ++ after) := by
  have step (cs : List Char) : lexStep state cs =
      wordStep (framesAfterName outer (cs.drop (cs.takeWhile isNamePart).length)) cs := by
    simp only [lexStep, top, variableStep, List.drop_succ_cons, List.drop_zero]
  have within := reaches.within filled
  have within' := reaches'.within filled
  rw [step] at within within'
  obtain ⟨fits, named⟩ := wordStep_within within
  have word := takeWhile_same fits (wordStep_within within').1
  have further := (reaches.goes filled).2.2
  rw [step, wordStep_word named, List.drop_append_of_le_length fits] at further
  simp only [LexStep.state, LexStep.size] at further
  have more := further.filled (framesAfterName_outside quoted _ _ _)
  have frames := framesAfterName_same more slash further
  have named' := named
  rw [← word] at named'
  rw [step, step, wordStep_word named, wordStep_word named', word,
    List.drop_append_of_le_length fits, List.drop_append_of_le_length fits, frames]

/-- In a subscript other characters begin a name or a number, or they are broken. -/
theorem offsetStep_cons {c : Char} (other : c ≠ '[' ∧ c ≠ ']' ∧ c ≠ '$' ∧ c ≠ '-')
    (rest : List Char) : offsetStep state (c :: rest) =
      if isNameStart c then wordStep state.frames (c :: rest)
      else if c.isDigit then
        .lexeme .integer "" (max 1 (integerLength (c :: rest))) state.frames
      else .lexeme .broken "" (c :: rest).length state.frames := by
  obtain ⟨opens, closes, dollar, minus⟩ := other
  rw [offsetStep] <;> simp [opens, closes, dollar, minus]

/-- The same for a step in a subscript. -/
theorem offsetStep_same (filled : front ≠ [])
    (within : Within front (offsetStep state (front ++ after)))
    (within' : Within front (offsetStep state (front ++ other))) :
    offsetStep state (front ++ other) = offsetStep state (front ++ after) := by
  obtain ⟨c, rest, rfl⟩ := List.exists_cons_of_ne_nil filled
  by_cases mark : c = '[' ∨ c = ']' ∨ c = '$' ∨ c = '-'
  · rcases mark with rfl | rfl | rfl | rfl <;> rfl
  · simp only [not_or] at mark
    rw [List.cons_append] at within within' ⊢
    rw [offsetStep_cons mark] at within within' ⊢
    rw [List.cons_append, offsetStep_cons mark]
    split
    · rename_i named
      rw [if_pos named] at within within'
      exact wordStep_same within within'
    · rename_i unnamed
      rw [if_neg unnamed] at within within'
      split
      · rename_i digit
        rw [if_pos digit] at within within'
        have inside := within.inside
        have inside' := within'.inside
        simp only [LexStep.size] at inside inside'
        have length : integerLength (c :: rest ++ other) = integerLength (c :: rest ++ after) :=
          settled_integerLength.same (by rw [List.cons_append]; omega)
            (by rw [List.cons_append]; omega)
        rw [List.cons_append, List.cons_append] at length
        rw [length]
      · rename_i plain
        rw [if_neg plain] at within
        cases within.whole

/-- Behind the arrow stands the name of a property. -/
theorem propertyStep_plain (state : ReaderState) {cs : List Char}
    (plain : ∀ rest, cs ≠ '-' :: '>' :: rest) :
    propertyStep state cs = wordStep (state.frames.drop 1) cs := by
  unfold propertyStep
  split
  · rename_i rest
    exact absurd rfl (plain rest)
  · rfl

/-- The same for a step at a property. -/
theorem propertyStep_same (filled : front ≠ [])
    (within : Within front (propertyStep state (front ++ after)))
    (within' : Within front (propertyStep state (front ++ other))) :
    propertyStep state (front ++ other) = propertyStep state (front ++ after) := by
  have long {added : List Char} (within : Within front (propertyStep state (front ++ added)))
      {rest : List Char} (arrow : front ++ added = '-' :: '>' :: rest) :
      ∃ more, front = '-' :: '>' :: more := by
    have inside := within.inside
    rw [arrow] at inside
    match front with
    | [] | [_] => simp [propertyStep, LexStep.size] at inside
    | a :: b :: more =>
        obtain ⟨rfl, rfl, -⟩ : a = '-' ∧ b = '>' ∧ _ := by simpa using arrow
        exact ⟨more, rfl⟩
  by_cases arrow : ∃ more, front = '-' :: '>' :: more
  · obtain ⟨more, rfl⟩ := arrow
    rfl
  · have step := propertyStep_plain state fun rest same => arrow (long within same)
    have step' := propertyStep_plain state fun rest same => arrow (long within' same)
    rw [step] at within ⊢
    rw [step'] at within' ⊢
    exact wordStep_same within within'

/-- A step before a place does not depend on what follows the place, if a slash follows it. -/
theorem lexStep_same (sound : WellNested state.frames) (filled : front ≠ [])
    (reaches : Reaches after state front) (reaches' : Reaches other state front)
    (slash : other.head? = some '/') :
    lexStep state (front ++ other) = lexStep state (front ++ after) := by
  have within := reaches.within filled
  have within' := reaches'.within filled
  cases top : state.frames with
  | nil => exact codeStep_same (by simp [ReaderState.inCode, top]) filled reaches reaches' slash
  | cons frame outer =>
      rw [top] at sound
      cases frame with
      | bracket opening =>
          have code : state.inCode = true := by
            simp [ReaderState.inCode, top, Frame.isQuoted, Frame.isInner]
          exact codeStep_same code filled reaches reaches' slash
      | hole =>
          have code : state.inCode = true := by
            simp [ReaderState.inCode, top, Frame.isQuoted, Frame.isInner]
          exact codeStep_same code filled reaches reaches' slash
      | quoted quotation =>
          rw [lexStep_quoted top, lexStep_quoted top]
          exact quotedTextStep_same top sound.1 reaches reaches' slash
      | «variable» => exact variableStep_same top (sound.1 rfl) filled reaches reaches' slash
      | offset =>
          have step (cs : List Char) : lexStep state cs = offsetStep state cs := by
            simp only [lexStep, top]
          rw [step] at within within' ⊢
          rw [step]
          exact offsetStep_same filled within within'
      | property =>
          have step (cs : List Char) : lexStep state cs = propertyStep state cs := by
            simp only [lexStep, top]
          rw [step] at within within' ⊢
          rw [step]
          exact propertyStep_same filled within within'

end

end Untranslated.Php
