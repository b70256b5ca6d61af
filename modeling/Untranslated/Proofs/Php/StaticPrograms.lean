/-
This file reads a static text as the argument of a call and as the key of an array.
-/

import Untranslated.Proofs.Php.Masking
import Untranslated.Proofs.Php.StaticText

namespace Untranslated.Php

open Grammar

/-- The reader finds these tokens in a text in front of a bracket, and they are those of a static
text. -/
structure IsStatic (text : List Char) (row : List Token) : Prop where
  reads : staticRow? [')'] text.length ⟨[], false, false⟩ [] 0 (mask text) = some row
  parts : ∃ parts : StaticText, row.map (·.lexeme) = parts.lexemes

/-- A call with this text as its argument. -/
def callText (text : List Char) : List Char := "<?php __(".toList ++ (text ++ ");".toList)

/-- A returned array with this text as its key. -/
def arrayText (text : List Char) : List Char :=
  "<?php return [".toList ++ (text ++ " => 1];".toList)

/-- What stands around a text is not masked, and the text is masked as if it stood alone. -/
theorem mask_between {front back text : List Char} {opening closing : Char}
    (separates : Separates opening) (separates' : Separates closing) (plain : mask front = front)
    (plain' : mask back = back) : mask (front ++ opening :: (text ++ closing :: back)) =
      front ++ opening :: (mask text ++ closing :: back) := by
  rw [mask_around separates, mask_around separates', plain, plain']

/-- Only the argument of the call is masked. -/
theorem mask_callText (text : List Char) :
    mask (callText text) = "<?php __(".toList ++ (mask text ++ ");".toList) := by
  have opening : Separates '(' := ⟨by decide, by decide, by decide⟩
  have closing : Separates ')' := ⟨by decide, by decide, by decide⟩
  have plain : mask "<?php __".toList = "<?php __".toList := by decide
  have plain' : mask [';'] = [';'] := by decide
  exact mask_between opening closing plain plain'

/-- Only the key of the array is masked. -/
theorem mask_arrayText (text : List Char) :
    mask (arrayText text) = "<?php return [".toList ++ (mask text ++ " => 1];".toList) := by
  have opening : Separates '[' := ⟨by decide, by decide, by decide⟩
  have closing : Separates ' ' := ⟨by decide, by decide, by decide⟩
  have plain : mask "<?php return ".toList = "<?php return ".toList := by decide
  have plain' : mask "=> 1];".toList = "=> 1];".toList := by decide
  exact mask_between opening closing plain plain'

section

variable {state : ReaderState} {lead : List Extra} {offset : Nat} {cs : List Char}

/-- Enough fuel gives the tokens. -/
theorem tokensAt_fuel (brackets : Bracketed state.frames) (fuel : Nat) (enough : cs.length < fuel) :
    tokensAt state lead offset cs = tokensFrom state lead offset fuel cs :=
  tokensFrom_fuel brackets.wellNested lead offset (Nat.lt_succ_self _) enough

theorem bracketed_nil : Bracketed [] := by simp [Bracketed]

theorem bracketed_single (opening : Char) : Bracketed [.bracket opening] :=
  List.forall_mem_singleton.mpr ⟨opening, rfl⟩

/-- The tokens of a call begin with its name and its bracket. -/
theorem tokens_callFront (rest : List Char) :
    tokens ("<?php __(".toList ++ rest) =
      ⟨functionLexeme, [], 6, 8⟩ :: ⟨.ofMark "(", [], 8, 9⟩ ::
        tokensAt ⟨[.bracket '('], false, false⟩ [] 9 rest := by
  have all : tokens ("<?php __(".toList ++ rest) =
      tokensFrom ⟨[], false, false⟩ [] 5 (rest.length + 5) (" __(".toList ++ rest) :=
    (tokens_eq _).trans (tokensAt_fuel bracketed_nil _ (Nat.lt_succ_self (rest.length + 4)))
  rw [tokensAt_fuel (bracketed_single '(') (rest.length + 2) (by omega)]
  exact all

/-- The tokens of a return begin with its keyword and its bracket. -/
theorem tokens_arrayFront (rest : List Char) :
    tokens ("<?php return [".toList ++ rest) =
      ⟨returnLexeme, [], 6, 12⟩ :: ⟨.ofMark "[", [], 13, 14⟩ ::
        tokensAt ⟨[.bracket '['], false, false⟩ [] 14 rest := by
  have all : tokens ("<?php return [".toList ++ rest) =
      tokensFrom ⟨[], false, false⟩ [] 5 (rest.length + 10) (" return [".toList ++ rest) :=
    (tokens_eq _).trans (tokensAt_fuel bracketed_nil _ (Nat.lt_succ_self (rest.length + 9)))
  rw [tokensAt_fuel (bracketed_single '[') (rest.length + 6) (by omega)]
  exact all

/-- A blank moves the tokens behind it. -/
theorem tokensAt_blank (brackets : Bracketed state.frames) (rest : List Char) :
    tokensAt state lead offset (' ' :: rest) = tokensAt state lead (offset + 1) rest := by
  have step : lexStep state (' ' :: rest) = .blank 1 := lexStep_code brackets.inCode _
  rw [tokensAt_step brackets.wellNested (by simp), step]
  rfl

/-- In brackets a mark or a number is taken in front of what is left, whether or not an operand
came last. -/
theorem tokensAt_lexeme {shape : Shape} {spelling : String} {size : Nat} (c : Char) (cs : List Char)
    (brackets : Bracketed state.frames) (plain : hasMarkup lead = false)
    (shaped : shape = .mark ∨ shape = .integer)
    (is : ∀ operand, codeStep ⟨state.frames, operand, state.lineStart⟩ (c :: cs) =
      .lexeme shape spelling size (framesAfter spelling state.frames)) :
    tokensAt state lead offset (c :: cs) =
      ⟨⟨shape, spelling, false⟩, lead, offset, offset + size⟩ ::
        tokensAt ⟨framesAfter spelling state.frames, endsOperand shape spelling, false⟩ []
          (offset + size) ((c :: cs).drop size) := by
  have step : lexStep state (c :: cs) =
      .lexeme shape spelling size (framesAfter spelling state.frames) :=
    (lexStep_code brackets.inCode _).trans (is state.operand)
  rw [tokensAt_step brackets.wellNested (by simp), step]
  simp only [LexStep.tokens, makeToken, plain, Bool.false_and]
  rcases shaped with rfl | rfl <;> rfl

/-- The tokens behind the argument close the call. -/
theorem tokensAt_callBack (brackets : Bracketed state.frames) (plain : hasMarkup lead = false) :
    tokensAt state lead offset ");".toList =
      [⟨.ofMark ")", lead, offset, offset + 1⟩, ⟨.ofMark ";", [], offset + 1, offset + 2⟩,
        ⟨endingLexeme, [], offset + 2, offset + 2⟩] := by
  have closing := @tokensAt_lexeme state lead offset .mark ")" 1 ')' [';'] brackets plain (.inl rfl)
    (by rintro (_ | _) <;> rfl)
  have separator := @tokensAt_lexeme ⟨framesAfter ")" state.frames, true, false⟩ [] (offset + 1)
    .mark ";" 1 ';' [] (brackets.framesAfter ")") rfl (.inl rfl) (by rintro (_ | _) <;> rfl)
  exact closing.trans (congrArg _ separator)

/-- The tokens behind the key close the array. -/
theorem tokensAt_arrayBack (brackets : Bracketed state.frames) (plain : hasMarkup lead = false) :
    tokensAt state lead offset " => 1];".toList =
      [⟨.ofMark "=>", lead, offset + 1, offset + 3⟩, ⟨numberLexeme, [], offset + 4, offset + 5⟩,
        ⟨.ofMark "]", [], offset + 5, offset + 6⟩, ⟨.ofMark ";", [], offset + 6, offset + 7⟩,
        ⟨endingLexeme, [], offset + 7, offset + 7⟩] := by
  have arrow := @tokensAt_lexeme state lead (offset + 1) .mark "=>" 2 '=' "> 1];".toList brackets
    plain (.inl rfl) (by rintro (_ | _) <;> rfl)
  have number := @tokensAt_lexeme ⟨state.frames, false, false⟩ [] (offset + 4) .integer "" 1 '1'
    "];".toList brackets rfl (.inr rfl) (by rintro (_ | _) <;> rfl)
  have closing := @tokensAt_lexeme ⟨state.frames, true, false⟩ [] (offset + 5) .mark "]" 1 ']'
    ";".toList brackets rfl (.inl rfl) (by rintro (_ | _) <;> rfl)
  have separator := @tokensAt_lexeme ⟨framesAfter "]" state.frames, true, false⟩ [] (offset + 6)
    .mark ";" 1 ';' [] (brackets.framesAfter "]") rfl (.inl rfl) (by rintro (_ | _) <;> rfl)
  calc tokensAt state lead offset " => 1];".toList
      = tokensAt state lead (offset + 1) "=> 1];".toList := tokensAt_blank brackets _
    _ = ⟨.ofMark "=>", lead, offset + 1, offset + 3⟩ ::
          tokensAt ⟨state.frames, false, false⟩ [] (offset + 3) " 1];".toList := arrow
    _ = ⟨.ofMark "=>", lead, offset + 1, offset + 3⟩ ::
          tokensAt ⟨state.frames, false, false⟩ [] (offset + 4) "1];".toList :=
      congrArg _ (@tokensAt_blank ⟨state.frames, false, false⟩ [] (offset + 3) brackets _)
    _ = _ := congrArg _ (number.trans (congrArg _ (closing.trans (congrArg _ separator))))

end

/-- Moved extras have as much template text. -/
theorem hasMarkup_shift (distance : Nat) (lead : List Extra) :
    hasMarkup (lead.map (Extra.shift distance)) = hasMarkup lead :=
  List.any_map

/-- A stretch of a text is found again where the whole text stands in another one. -/
theorem slice_within {text : List Char} {start stop : Nat} (inside : stop ≤ text.length)
    (front back : List Char) :
    slice (front ++ (text ++ back)) (start + front.length) (stop + front.length) =
      slice text start stop := by
  have same : stop + front.length - (start + front.length) = stop - start := by omega
  rw [slice, slice, same, Nat.add_comm start, ← List.drop_drop, List.drop_left]
  by_cases order : start ≤ stop
  · rw [List.drop_append_of_le_length (by omega), List.take_append_of_le_length]
    rw [List.length_drop]
    omega
  · rw [show stop - start = 0 by omega, List.take_zero, List.take_zero]

section

variable {text : List Char} {row : List Token}

/-- In an open bracket a static text has its own tokens, as far from the start as it stands. -/
theorem IsStatic.tokensAt (static : IsStatic text row) {other : List Char} (ends : EndsText other)
    (opening : Char) (distance : Nat) :
    ∃ last late, Bracketed last.frames ∧ hasMarkup late = false ∧
      tokensAt ⟨[.bracket opening], false, false⟩ [] distance (mask text ++ other) =
        (row ++ Php.tokensAt last late text.length other).map (Token.shift distance) := by
  have agrees : Agrees ⟨[], false, false⟩ ⟨[.bracket opening], false, false⟩ :=
    ⟨rfl, bracketed_nil, bracketed_single opening⟩
  obtain ⟨last, late, brackets, plain, here⟩ :=
    tokensAt_static (.inl rfl) ends agrees rfl static.reads
  rw [maskLength, Nat.zero_add] at here
  have moved := (@tokensFrom_moved ⟨[.bracket opening], false, false⟩ [] [] 0 distance rfl
    ((mask text ++ other).length + 1) (mask text ++ other)).row.2
  rw [Nat.zero_add] at moved
  exact ⟨last, late, brackets, plain, moved.trans (congrArg _ here)⟩

/-- The tokens of a call with a static text. -/
theorem IsStatic.tokens_call (static : IsStatic text row) :
    ∃ back, back.map (·.lexeme) = [.ofMark ")", .ofMark ";", endingLexeme] ∧
      tokens (mask (callText text)) =
        ⟨functionLexeme, [], 6, 8⟩ :: ⟨.ofMark "(", [], 8, 9⟩ ::
          (row.map (Token.shift 9) ++ back) := by
  obtain ⟨last, late, brackets, plain, inside⟩ :=
    static.tokensAt (.inl rfl : EndsText ");".toList) '(' 9
  refine ⟨_, ?_, by rw [mask_callText, tokens_callFront, inside, List.map_append]⟩
  rw [tokensAt_callBack brackets plain]
  rfl

/-- The tokens of an array with a static text as its key. -/
theorem IsStatic.tokens_array (static : IsStatic text row) :
    ∃ back, back.map (·.lexeme) = afterKey [.ofMark ";", endingLexeme] ∧
      (∀ token ∈ back, hasMarkup token.lead = false) ∧
      tokens (mask (arrayText text)) =
        ⟨returnLexeme, [], 6, 12⟩ :: ⟨.ofMark "[", [], 13, 14⟩ ::
          (row.map (Token.shift 14) ++ back) := by
  obtain ⟨last, late, brackets, plain, inside⟩ :=
    static.tokensAt (.inr rfl : EndsText " => 1];".toList) '[' 14
  refine ⟨_, ?_, ?_, by rw [mask_arrayText, tokens_arrayFront, inside, List.map_append]⟩
  all_goals rw [tokensAt_arrayBack brackets plain]
  · rfl
  · intro token member
    obtain ⟨other, inside, rfl⟩ := List.mem_map.mp member
    refine (hasMarkup_shift 14 other.lead).trans ?_
    simp only [List.mem_cons, List.not_mem_nil, or_false] at inside
    rcases inside with rfl | rfl | rfl | rfl | rfl
    · exact plain
    all_goals rfl

/-- Moved tokens keep their lexemes. -/
theorem map_shift_lexeme (distance : Nat) (row : List Token) :
    (row.map (Token.shift distance)).map (·.lexeme) = row.map (·.lexeme) := by
  rw [List.map_map]
  rfl

/-- A call with a static text is read as one. -/
theorem IsStatic.parse_call (static : IsStatic text row) {parts : StaticText}
    (lexemes : row.map (·.lexeme) = parts.lexemes) (path : Option Text) :
    ∃ back, parse (callText text) path = .ok ⟨.ofChars (callText text),
      (callProgram parts).toNode (⟨functionLexeme, [], 6, 8⟩ :: ⟨.ofMark "(", [], 8, 9⟩ ::
        (row.map (Token.shift 9) ++ back))⟩ := by
  obtain ⟨back, ends, found⟩ := static.tokens_call
  refine ⟨back, ?_⟩
  have masked : (Source.ofChars (callText text)).masked = mask (callText text) := rfl
  simp only [parse, masked, found]
  rw [@read_call parts]
  simp only [List.map_cons, List.map_append, map_shift_lexeme, lexemes, ends]
  rfl

/-- An array with a static text as its key is read as one. -/
theorem IsStatic.parse_array (static : IsStatic text row) {parts : StaticText}
    (lexemes : row.map (·.lexeme) = parts.lexemes) (path : Option Text) :
    ∃ back, back.length = 5 ∧ (∀ token ∈ back, hasMarkup token.lead = false) ∧
      parse (arrayText text) path = .ok ⟨.ofChars (arrayText text),
        (arrayProgram parts).toNode (⟨returnLexeme, [], 6, 12⟩ :: ⟨.ofMark "[", [], 13, 14⟩ ::
          (row.map (Token.shift 14) ++ back))⟩ := by
  obtain ⟨back, ends, plain, found⟩ := static.tokens_array
  refine ⟨back, by simpa [afterKey] using congrArg List.length ends, plain, ?_⟩
  have masked : (Source.ofChars (arrayText text)).masked = mask (arrayText text) := rfl
  simp only [parse, masked, found]
  rw [@read_array parts]
  simp only [List.map_cons, List.map_append, map_shift_lexeme, lexemes, ends]
  rfl

end

/-- A row with no template text in it is its own twin. -/
theorem twins_self (source : List Char) {tokens : List Token}
    (plain : ∀ token ∈ tokens, hasMarkup token.lead = false) :
    Twins source source tokens.length tokens tokens := by
  induction tokens with
  | nil => exact .rest [] []
  | cons token tokens inductionHypothesis =>
      obtain ⟨first, others⟩ := List.forall_mem_cons.mp plain
      exact .token rfl first first (inductionHypothesis others)

/-- Two texts of one row stand in two others. -/
theorem twins_within {text text' : List Char} {row : List Token}
    (front front' back back' : List Char) (tail tail' : List Token)
    (inside : ∀ token ∈ row, token.stop ≤ text.length ∧ hasMarkup token.lead = false)
    (length : text'.length = text.length)
    (same : ∀ token ∈ row, slice text token.start token.stop = slice text' token.start token.stop) :
    Twins (front ++ (text ++ back)) (front' ++ (text' ++ back')) row.length
      (row.map (Token.shift front.length) ++ tail)
      (row.map (Token.shift front'.length) ++ tail') := by
  induction row with
  | nil => exact .rest tail tail'
  | cons token row inductionHypothesis =>
      obtain ⟨⟨stop, plain⟩, inside⟩ := List.forall_mem_cons.mp inside
      obtain ⟨first, same⟩ := List.forall_mem_cons.mp same
      refine .token ?_ ((hasMarkup_shift _ _).trans plain) ((hasMarkup_shift _ _).trans plain)
        (inductionHypothesis inside same)
      exact (slice_within stop front back).trans
        (first.trans (slice_within (length ▸ stop) front' back').symm)

/-- The tokens of a static text end within it. -/
theorem IsStatic.inside {text : List Char} {row : List Token} (static : IsStatic text row) :
    ∀ token ∈ row, token.stop ≤ (mask text).length ∧ hasMarkup token.lead = false := by
  have inside := staticRow?_inside rfl static.reads
  simpa using inside

end Untranslated.Php
