/-
This file proves that the reader goes on at every step and keeps what is open well-formed.
The tokens of a text do not depend on the fuel.
-/

import Untranslated.Proofs.Php.Lexer.Beginnings

namespace Untranslated.Php

/-- Variables in quoted text and their parts. -/
def Frame.isInner : Frame → Bool
  | .variable | .offset | .property => true
  | _ => false

/-- A quotation is open. -/
def Frame.isQuoted : Frame → Bool
  | .quoted _ => true
  | _ => false

/-- Documents have labels, and variables with their parts stand in quoted texts. -/
def WellNested : List Frame → Prop
  | [] => True
  | .quoted quotation :: rest => quotation.IsSound ∧ WellNested rest
  | frame :: rest => (frame.isInner = true → rest.head?.any Frame.isQuoted = true) ∧ WellNested rest

theorem WellNested.tail {frame : Frame} {rest : List Frame} (sound : WellNested (frame :: rest)) :
    WellNested rest := by
  cases frame <;> exact sound.2

theorem wellNested_cons {frame : Frame} {rest : List Frame} (plain : frame.isInner = false)
    (unquoted : frame.isQuoted = false) : WellNested (frame :: rest) ↔ WellNested rest := by
  cases frame <;> simp_all [WellNested, Frame.isInner, Frame.isQuoted]

/-- A bracket that is closed leaves well-formed constructs. -/
theorem WellNested.closeFrame {frames : List Frame} (sound : WellNested frames) (opening : Char) :
    WellNested (closeFrame opening frames) := by
  unfold Untranslated.Php.closeFrame
  split
  · split
    · exact sound.tail
    · exact sound
  · split
    · exact sound.tail
    · exact sound
  · exact sound

/-- A mark leaves well-formed constructs. -/
theorem WellNested.framesAfter {frames : List Frame} (sound : WellNested frames) (mark : String) :
    WellNested (framesAfter mark frames) := by
  have opened (opening : Char) : WellNested (.bracket opening :: frames) :=
    (wellNested_cons rfl rfl).mpr sound
  unfold Untranslated.Php.framesAfter
  repeat' split
  all_goals first | exact opened _ | exact sound.closeFrame _ | exact sound

/-- The length of the text that a step takes. -/
def LexStep.size : LexStep → Nat
  | .blank size | .extra _ size | .lexeme _ _ size _ => size

/-- A step goes on in the text, and what is open after it is well-formed. -/
structure LexStep.IsSound (step : LexStep) : Prop where
  positive : 0 < step.size
  frames {shape : Shape} {spelling : String} {size : Nat} {frames : List Frame}
    (is : step = .lexeme shape spelling size frames) : WellNested frames

/-- A token that takes some text is sound. -/
theorem LexStep.IsSound.lexeme {shape : Shape} {spelling : String} {size : Nat}
    {frames : List Frame} (positive : 0 < size) (sound : WellNested frames) :
    (LexStep.lexeme shape spelling size frames).IsSound where
  positive := positive
  frames is := by
    cases is
    exact sound

/-- A blank is sound. -/
theorem LexStep.IsSound.blank : (LexStep.blank 1).IsSound where
  positive := Nat.one_pos
  frames is := by cases is

/-- A comment that takes some text is sound. -/
theorem LexStep.IsSound.extra {filler : Filler} {size : Nat} (positive : 0 < size) :
    (LexStep.extra filler size).IsSound where
  positive := positive
  frames is := by cases is

section

variable {frames : List Frame} {cs : List Char}

/-- A word is sound. -/
theorem wordStep_sound (sound : WellNested frames) (filled : cs ≠ []) :
    (wordStep frames cs).IsSound := by
  unfold wordStep
  simp only
  split
  · exact .lexeme (List.length_pos_iff.mpr filled) sound
  · rename_i word
    exact .lexeme (List.length_pos_iff.mpr fun empty => word (by simp [empty])) sound

/-- A number is sound. -/
theorem numberStep_sound (sound : WellNested frames) : (numberStep frames cs).IsSound := by
  unfold numberStep
  simp only
  split
  · exact .lexeme (by omega) sound
  · exact .lexeme (by omega) sound

/-- A text in single quotes is sound. -/
theorem singleQuotedStep_sound {opening : Nat} (sound : WellNested frames) (positive : 0 < opening)
    (filled : cs ≠ []) : (singleQuotedStep opening frames cs).IsSound := by
  unfold singleQuotedStep
  split
  · exact .lexeme (by omega) sound
  · exact .lexeme (List.length_pos_iff.mpr filled) sound

/-- A quotation is sound. -/
theorem quotedStep_sound {whole : Shape} {quotation : Quotation} {opening : Nat}
    (sound : WellNested frames) (own : quotation.IsSound) (positive : 0 < opening)
    (filled : cs ≠ []) : (quotedStep whole quotation opening frames cs).IsSound := by
  unfold quotedStep
  simp only
  split
  · exact .lexeme (by omega) sound
  · exact .lexeme positive ⟨own, sound⟩
  · exact .lexeme (List.length_pos_iff.mpr filled) sound

/-- A document is sound. -/
theorem documentStep_sound {letter : Nat} (sound : WellNested frames) (filled : cs ≠ []) :
    (documentStep letter frames cs).IsSound := by
  have broken : (LexStep.lexeme .broken "" cs.length frames).IsSound :=
    .lexeme (List.length_pos_iff.mpr filled) sound
  unfold documentStep
  simp only
  split
  · exact broken
  · rename_i size label isNowdoc found
    split
    · split
      · exact broken
      · exact .lexeme (by omega) sound
    · exact quotedStep_sound sound (documentOpening?_label found).1 (by omega) filled

/-- The step of a beginning takes something. An unknown one takes all that is left. -/
theorem Beginning.step_sound {entry : Beginning} (told : entry = .unknown ∨ entry.tests ≠ [])
    (sound : WellNested frames) (filled : cs ≠ []) : (entry.step frames cs).IsSound := by
  have positive : 0 < cs.length := List.length_pos_iff.mpr filled
  cases entry with
  | blank => exact .blank
  | word => exact wordStep_sound sound filled
  | number | fraction => exact numberStep_sound sound
  | markup | lineComment | hash => exact .extra (by omega)
  | blockComment =>
      simp only [Beginning.step]
      split
      · exact .extra (by omega)
      · exact .lexeme positive sound
  | mark spelling =>
      refine .lexeme (Nat.pos_of_ne_zero fun none => ?_) (sound.framesAfter _)
      simp [Beginning.tests, spelled, String.length_eq_zero_iff.mp none] at told
  | singleQuoted letter => exact singleQuotedStep_sound sound (Nat.succ_pos _) filled
  | doubleQuoted letter => exact quotedStep_sound sound trivial (Nat.succ_pos _) filled
  | shellQuoted => exact quotedStep_sound sound trivial Nat.one_pos filled
  | document letter => exact documentStep_sound sound filled
  | unknown => exact .lexeme positive sound

/-- A step in code is sound. -/
theorem codeStep_sound {state : ReaderState} (sound : WellNested state.frames) (filled : cs ≠ []) :
    (codeStep state cs).IsSound := by
  rw [codeStep_eq state filled]
  exact Beginning.step_sound (beginning_told state.operand cs) sound filled

/-- A step in a quotation is sound. -/
theorem quotedTextStep_sound {state : ReaderState} {quotation : Quotation} {outer : List Frame}
    (top : state.frames = .quoted quotation :: outer) (sound : WellNested state.frames)
    (filled : cs ≠ []) : (quotedTextStep quotation state cs).IsSound := by
  have positive : 0 < cs.length := List.length_pos_iff.mpr filled
  have hole : WellNested (.hole :: state.frames) := (wellNested_cons rfl rfl).mpr sound
  have own := sound
  rw [top] at own
  unfold quotedTextStep
  split
  · exact .lexeme positive sound
  · refine .lexeme (closingLength_positive own.1 cs) ?_
    rw [top]
    exact own.2
  · split
    · exact .lexeme (by decide) hole
    · exact .lexeme (by decide) ⟨fun _ => by rw [top]; rfl, sound⟩
    · exact .lexeme (by decide) hole
  · rename_i size ending ended closed interpolated found
    refine .lexeme (Nat.pos_of_ne_zero fun none => ?_) sound
    cases ending with
    | closed => exact closed none rfl
    | interpolation => exact interpolated none rfl
    | unclosed => exact ended rfl

/-- A step at a variable in a quotation is sound. -/
theorem variableStep_sound {state : ReaderState} {outer : List Frame}
    (top : state.frames = .variable :: outer) (sound : WellNested state.frames)
    (filled : cs ≠ []) : (variableStep state cs).IsSound := by
  rw [top] at sound
  have inner {frame : Frame} (is : frame.isInner = true) : WellNested (frame :: outer) := by
    cases frame <;> first | exact ⟨fun _ => sound.1 rfl, sound.2⟩ | cases is
  refine wordStep_sound ?_ filled
  rw [top, List.drop_succ_cons, List.drop_zero]
  unfold framesAfterName
  split
  · exact inner rfl
  · split
    · exact inner rfl
    · exact sound.2
  · exact sound.2

/-- A step in a subscript is sound. -/
theorem offsetStep_sound {state : ReaderState} (sound : WellNested state.frames)
    (filled : cs ≠ []) : (offsetStep state cs).IsSound := by
  have outer : WellNested (state.frames.drop 1) := by
    cases frames : state.frames with
    | nil => trivial
    | cons frame rest =>
        rw [frames] at sound
        exact sound.tail
  unfold offsetStep
  split
  · exact .lexeme (by decide) sound
  · exact .lexeme (by decide) outer
  · exact .lexeme (by decide) sound
  · exact .lexeme (by decide) sound
  · split
    · exact wordStep_sound sound filled
    · split
      · exact .lexeme (by omega) sound
      · exact .lexeme (List.length_pos_iff.mpr filled) sound
  · exact .blank

/-- A step at a property is sound. -/
theorem propertyStep_sound {state : ReaderState} (sound : WellNested state.frames)
    (filled : cs ≠ []) : (propertyStep state cs).IsSound := by
  unfold propertyStep
  split
  · exact .lexeme (by decide) sound
  · refine wordStep_sound ?_ filled
    cases frames : state.frames with
    | nil => trivial
    | cons frame rest =>
        rw [frames] at sound
        exact sound.tail

/-- Every step goes on in the text and leaves well-formed constructs. -/
theorem lexStep_sound {state : ReaderState} (sound : WellNested state.frames) (filled : cs ≠ []) :
    (lexStep state cs).IsSound := by
  unfold lexStep
  split
  · rename_i top
    exact quotedTextStep_sound top sound filled
  · rename_i top
    exact variableStep_sound top sound filled
  · exact offsetStep_sound sound filled
  · exact propertyStep_sound sound filled
  · exact codeStep_sound sound filled

end

/-- The reader stops at a token that is broken. -/
def LexStep.isBroken : LexStep → Bool
  | .lexeme .broken _ _ _ => true
  | _ => false

/-- The state after a step that took so much text. -/
def LexStep.state (old : ReaderState) (taken : List Char) : LexStep → ReaderState
  | .blank _ => old
  | .extra filler _ => { old with operand := old.operand && filler != .markup }
  | .lexeme shape spelling _ frames =>
    ⟨frames, endsOperand shape spelling, shape == .templateText && endsLine taken⟩

/-- The extras since the last token after a step. -/
def LexStep.lead (lead : List Extra) (offset : Nat) : LexStep → List Extra
  | .blank _ => lead
  | .extra filler size => lead ++ [⟨filler, offset, offset + size⟩]
  | .lexeme _ _ _ _ => []

/-- The token that a step gives, if it gives one. -/
def LexStep.tokens (old : ReaderState) (lead : List Extra) (offset : Nat) : LexStep → List Token
  | .lexeme shape spelling size _ => [makeToken old lead offset shape spelling size]
  | _ => []

/-- The tokens of a text are those of a step and those of what is left after it. -/
theorem tokensFrom_step (state : ReaderState) (lead : List Extra) (offset fuel : Nat)
    {cs : List Char} (filled : cs ≠ []) :
    tokensFrom state lead offset (fuel + 1) cs =
      (lexStep state cs).tokens state lead offset ++
        if (lexStep state cs).isBroken then []
        else tokensFrom ((lexStep state cs).state state (cs.take (lexStep state cs).size))
          ((lexStep state cs).lead lead offset) (offset + (lexStep state cs).size) fuel
          (cs.drop (lexStep state cs).size) := by
  obtain ⟨c, rest, rfl⟩ := List.exists_cons_of_ne_nil filled
  rw [tokensFrom]
  cases lexStep state (c :: rest) with
  | blank size => rfl
  | extra filler size => rfl
  | lexeme shape spelling size frames =>
      cases shape <;> rfl

/-- A sound step leads to a state with well-formed constructs. -/
theorem LexStep.IsSound.state {state : ReaderState} {step : LexStep}
    (sound : WellNested state.frames) (good : step.IsSound) (taken : List Char) :
    WellNested (step.state state taken).frames := by
  cases step with
  | blank size => exact sound
  | extra filler size => exact sound
  | lexeme shape spelling size frames => exact good.frames rfl

/-- Fuel for every character and one more is enough. -/
theorem tokensFrom_fuel {state : ReaderState} (sound : WellNested state.frames) (lead : List Extra)
    (offset : Nat) {fuel fuel' : Nat} {cs : List Char} (enough : cs.length < fuel)
    (enough' : cs.length < fuel') :
    tokensFrom state lead offset fuel cs = tokensFrom state lead offset fuel' cs := by
  induction fuel generalizing state lead offset fuel' cs with
  | zero => exact absurd enough (Nat.not_lt_zero _)
  | succ fuel inductionHypothesis =>
      obtain ⟨fuel', rfl⟩ := Nat.exists_eq_succ_of_ne_zero (Nat.ne_zero_of_lt enough')
      by_cases empty : cs = []
      · subst empty
        rfl
      · have good := lexStep_sound sound empty
        have filled := List.length_pos_iff.mpr empty
        have positive := good.positive
        have shorter : (cs.drop (lexStep state cs).size).length < cs.length := by
          rw [List.length_drop]
          omega
        rw [tokensFrom_step _ _ _ _ empty, tokensFrom_step _ _ _ _ empty,
          inductionHypothesis (good.state sound _) _ _ (by omega) (Nat.lt_of_lt_of_le shorter
            (Nat.lt_succ_iff.mp enough'))]

end Untranslated.Php
