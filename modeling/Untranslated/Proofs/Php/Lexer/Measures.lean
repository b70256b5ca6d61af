/-
This file proves that the reader's measures of a text are settled by the text itself.
What follows changes a measure only if the measure reaches into it.
-/

import Mathlib.Data.List.TakeWhile
import Untranslated.Php.Lexer

namespace Untranslated.Php

/-- More text leaves a measure as it is, or the measure reaches into what was added. -/
def Settled (measure : List Char → Nat) : Prop :=
  ∀ text added, measure (text ++ added) = measure text ∨ text.length < measure (text ++ added)

/-- A measure within a text does not depend on what follows the text. -/
theorem Settled.same {measure : List Char → Nat} (settled : Settled measure)
    {text added other : List Char} (within : measure (text ++ added) ≤ text.length)
    (within' : measure (text ++ other) ≤ text.length) :
    measure (text ++ added) = measure (text ++ other) := by
  have first := settled text added
  have second := settled text other
  omega

/-- A run of characters is settled. -/
theorem settled_takeWhile (test : Char → Bool) : Settled fun cs => (cs.takeWhile test).length := by
  intro text added
  simp only
  by_cases inside : ∀ c ∈ text, test c
  · rw [List.takeWhile_append_of_pos inside, List.takeWhile_eq_self_iff.mpr inside,
      List.length_append]
    omega
  · left
    rw [List.takeWhile_append, if_neg]
    intro whole
    exact inside (List.takeWhile_eq_self_iff.mp (List.takeWhile_sublist test |>.eq_of_length whole))

/-- The length of an opening tag is settled. -/
theorem settled_tagTail : Settled tagTail := by
  intro text added
  match text with
  | [] =>
      simp only [List.nil_append, List.length_nil]
      have none : tagTail [] = 0 := rfl
      omega
  | [a] | [a, b] =>
      unfold tagTail
      split
      · right
        simp
      · left
        simp
  | a :: b :: c :: rest => exact .inl rfl

/-- The text before the code is settled. -/
theorem settled_markupLength : Settled markupLength := by
  intro text added
  fun_induction markupLength text with
  | case1 =>
      simp only [List.nil_append, List.length_nil]
      omega
  | case2 rest =>
      have tail := settled_tagTail rest added
      simp only [List.cons_append, markupLength, List.length_cons]
      omega
  | case3 c rest different inductionHypothesis =>
      by_cases opens : ∃ others, c = '<' ∧ rest = [] ∧ added = '?' :: others
      · obtain ⟨others, rfl, rfl, rfl⟩ := opens
        right
        simp [markupLength]
        omega
      · rw [List.cons_append, markupLength]
        · simp only [List.length_cons]
          omega
        · intro others head tail
          cases rest with
          | nil => exact opens ⟨others, head, rfl, tail⟩
          | cons next rest =>
              obtain ⟨rfl, -⟩ := List.cons.inj tail
              exact different _ head rfl

/-- A line comment goes on with most characters. -/
theorem lineCommentLength_cons {c : Char} (other : c ≠ '?' ∧ c ≠ '\r' ∧ c ≠ '\n')
    (rest : List Char) : lineCommentLength (c :: rest) = 1 + lineCommentLength rest := by
  obtain ⟨mark, carriage, newline⟩ := other
  rw [lineCommentLength] <;> simp [mark, carriage, newline]

/-- A line comment goes on with a question mark, unless it closes the code. -/
theorem lineCommentLength_mark {c : Char} (other : c ≠ '>' ∧ c ≠ '\r' ∧ c ≠ '\n')
    (rest : List Char) : lineCommentLength ('?' :: c :: rest) = 2 + lineCommentLength rest := by
  obtain ⟨tag, carriage, newline⟩ := other
  rw [lineCommentLength] <;> simp [tag, carriage, newline]

/-- A question mark before a lone carriage return is no part of the comment. -/
theorem lineCommentLength_carriage {rest : List Char} (alone : ∀ others, rest ≠ '\n' :: others) :
    lineCommentLength ('?' :: '\r' :: rest) = 0 := by
  rw [lineCommentLength]
  exact fun others newline => alone others newline

/-- A question mark takes the next character into the comment, or it ends the comment. -/
theorem lineCommentLength_leadingMark (rest : List Char) :
    lineCommentLength ('?' :: rest) = 0 ∨ 1 < lineCommentLength ('?' :: rest) := by
  generalize whole : '?' :: rest = text
  fun_cases lineCommentLength text with
  | case1 | case2 | case5 => exact .inr (by omega)
  | case3 | case4 | case6 | case7 | case8 | case10 => exact .inl rfl
  | case9 c rest _ _ _ _ more last =>
      obtain ⟨rfl, rfl⟩ := List.cons.inj whole
      cases rest with
      | nil => exact absurd rfl (last rfl)
      | cons next rest => exact absurd rfl (more next rest rfl)

/-- A line comment is settled. -/
theorem settled_lineCommentLength : Settled lineCommentLength := by
  intro text added
  fun_induction lineCommentLength text with
  | case1 | case2 | case4 | case7 | case8 => exact .inl rfl
  | case3 rest alone =>
      by_cases newline : ∃ others, rest ++ added = '\n' :: others
      · obtain ⟨others, newline⟩ := newline
        cases rest with
        | nil =>
            right
            rw [List.nil_append] at newline
            simp [newline, lineCommentLength]
        | cons next rest =>
            obtain ⟨rfl, -⟩ := List.cons.inj newline
            exact absurd rfl (alone rest)
      · left
        exact lineCommentLength_carriage fun others same => newline ⟨others, same⟩
  | case5 c rest carriage newline feed tag inductionHypothesis =>
      rw [List.cons_append, List.cons_append, lineCommentLength_mark ⟨tag, feed, newline⟩]
      simp only [List.length_cons]
      omega
  | case6 => exact lineCommentLength_leadingMark added
  | case9 c rest _ _ _ _ more last carriage newline inductionHypothesis =>
      have mark : c ≠ '?' := by
        rintro rfl
        cases rest with
        | nil => exact last rfl rfl
        | cons next rest => exact more next rest rfl rfl
      rw [List.cons_append, lineCommentLength_cons ⟨mark, carriage, newline⟩]
      simp only [List.length_cons]
      omega
  | case10 =>
      simp only [List.nil_append, List.length_nil]
      omega

/-- The end of a construct that is found in a text stays where it is, whatever follows. -/
structure Closes (ending? : List Char → Option Nat) : Prop where
  positive {text : List Char} {size : Nat} (found : ending? text = some size) : 0 < size
  append {text : List Char} {size : Nat} (added : List Char) (found : ending? text = some size) :
    ending? (text ++ added) = some size
  within {text added : List Char} {size : Nat} (found : ending? (text ++ added) = some size)
    (inside : size ≤ text.length) : ending? text = some size

/-- A block comment goes on up to the mark that closes it. -/
theorem blockCommentLength?_cons {c : Char} {rest : List Char}
    (different : ¬∃ others, c = '*' ∧ rest = '/' :: others) :
    blockCommentLength? (c :: rest) = (blockCommentLength? rest).map (· + 1) := by
  rw [blockCommentLength?]
  exact fun others star tail => different ⟨others, star, tail⟩

/-- The end of a block comment takes some characters. -/
theorem blockCommentLength?_positive {text : List Char} {size : Nat}
    (found : blockCommentLength? text = some size) : 0 < size := by
  unfold blockCommentLength? at found
  split at found
  · cases found
  · cases found
    decide
  · obtain ⟨inner, -, rfl⟩ := Option.map_eq_some_iff.mp found
    omega

/-- The end of a block comment stays where it is. -/
theorem closes_blockComment : Closes blockCommentLength? where
  positive := blockCommentLength?_positive
  append {text size} added found := by
    fun_induction blockCommentLength? text generalizing size with
    | case1 => cases found
    | case2 => exact found
    | case3 c rest different inductionHypothesis =>
        obtain ⟨inner, foundInner, rfl⟩ := Option.map_eq_some_iff.mp found
        rw [List.cons_append, blockCommentLength?_cons, inductionHypothesis foundInner]
        · rfl
        · rintro ⟨others, star, tail⟩
          cases rest with
          | nil => cases foundInner
          | cons next rest =>
              obtain ⟨rfl, -⟩ := List.cons.inj tail
              exact different rest star rfl
  within {text added size} found inside := by
    fun_induction blockCommentLength? text generalizing size with
    | case1 => exact absurd inside (Nat.not_le.mpr (blockCommentLength?_positive found))
    | case2 => exact found
    | case3 c rest different inductionHypothesis =>
        rw [List.cons_append] at found
        by_cases closing : ∃ others, c = '*' ∧ rest ++ added = '/' :: others
        · obtain ⟨others, rfl, tail⟩ := closing
          rw [tail] at found
          cases found
          cases rest with
          | nil => simp at inside
          | cons next rest =>
              obtain ⟨rfl, -⟩ := List.cons.inj tail
              exact absurd rfl (different rest rfl)
        · rw [blockCommentLength?_cons closing] at found
          obtain ⟨inner, foundInner, rfl⟩ := Option.map_eq_some_iff.mp found
          rw [inductionHypothesis foundInner (by simpa using inside)]
          rfl

/-- A text in single quotes goes on up to a quote that is not escaped. -/
theorem singleQuotedLength?_cons {c : Char} {rest : List Char} (quote : c ≠ '\'')
    (escape : ¬(c = '\\' ∧ rest ≠ [])) :
    singleQuotedLength? (c :: rest) = (singleQuotedLength? rest).map (· + 1) := by
  rw [singleQuotedLength?]
  · exact quote
  · exact fun next others is tail => escape ⟨is, by simp [tail]⟩

/-- The end of a text in single quotes takes a character. -/
theorem singleQuotedLength?_positive {text : List Char} {size : Nat}
    (found : singleQuotedLength? text = some size) : 0 < size := by
  unfold singleQuotedLength? at found
  split at found
  · cases found
  · cases found
    decide
  · obtain ⟨inner, -, rfl⟩ := Option.map_eq_some_iff.mp found
    omega
  · obtain ⟨inner, -, rfl⟩ := Option.map_eq_some_iff.mp found
    omega

/-- The end of a text in single quotes stays where it is. -/
theorem closes_singleQuoted : Closes singleQuotedLength? where
  positive := singleQuotedLength?_positive
  append {text size} added found := by
    fun_induction singleQuotedLength? text generalizing size with
    | case1 => cases found
    | case2 => exact found
    | case3 c rest inductionHypothesis =>
        obtain ⟨inner, foundInner, rfl⟩ := Option.map_eq_some_iff.mp found
        rw [List.cons_append, List.cons_append, singleQuotedLength?, inductionHypothesis foundInner]
        rfl
    | case4 c rest quote escape inductionHypothesis =>
        obtain ⟨inner, foundInner, rfl⟩ := Option.map_eq_some_iff.mp found
        rw [List.cons_append, singleQuotedLength?_cons quote, inductionHypothesis foundInner]
        · rfl
        · rintro ⟨is, -⟩
          cases rest with
          | nil => cases foundInner
          | cons next rest => exact escape next rest is rfl
  within {text added size} found inside := by
    fun_induction singleQuotedLength? text generalizing size with
    | case1 => exact absurd inside (Nat.not_le.mpr (singleQuotedLength?_positive found))
    | case2 => exact found
    | case3 c rest inductionHypothesis =>
        rw [List.cons_append, List.cons_append, singleQuotedLength?] at found
        obtain ⟨inner, foundInner, rfl⟩ := Option.map_eq_some_iff.mp found
        rw [inductionHypothesis foundInner (by simpa using inside)]
        rfl
    | case4 c rest quote escape inductionHypothesis =>
        rw [List.cons_append] at found
        by_cases taken : c = '\\' ∧ rest ++ added ≠ []
        · -- The backslash at the end takes the next character with it.
          obtain ⟨rfl, more⟩ := taken
          cases rest with
          | cons next rest => exact absurd rfl (escape next rest rfl)
          | nil =>
              cases added with
              | nil => exact absurd rfl more
              | cons next others =>
                  rw [List.nil_append, singleQuotedLength?] at found
                  obtain ⟨inner, -, rfl⟩ := Option.map_eq_some_iff.mp found
                  simp at inside
        · rw [singleQuotedLength?_cons quote taken] at found
          obtain ⟨inner, foundInner, rfl⟩ := Option.map_eq_some_iff.mp found
          rw [inductionHypothesis foundInner (by simpa using inside)]
          rfl

section

variable (isDigit : Char → Bool)

theorem digitsLength_le (cs : List Char) : digitsLength isDigit cs ≤ cs.length := by
  fun_induction digitsLength isDigit cs <;> simp only [List.length_cons, List.length_nil] <;> omega

/-- Digits go on with a digit. -/
theorem digitsLength_cons {c : Char} {rest : List Char} (single : ¬(c = '_' ∧ rest ≠ [])) :
    digitsLength isDigit (c :: rest) = if isDigit c then 1 + digitsLength isDigit rest else 0 := by
  rw [digitsLength]
  exact fun next others is tail => single ⟨is, by simp [tail]⟩

/-- What is left of a text after its digits, where more text goes on with them. -/
def isDigitsEnd (rest : List Char) : Prop := rest = [] ∨ rest = ['_']

/-- More text leaves the digits as they are, or the text ends in digits and they go on. -/
theorem digitsLength_append (separator : isDigit '_' = false) (text added : List Char) :
    digitsLength isDigit (text ++ added) = digitsLength isDigit text ∨
      text.length < digitsLength isDigit (text ++ added) ∧
        isDigitsEnd (text.drop (digitsLength isDigit text)) := by
  fun_induction digitsLength isDigit text with
  | case1 =>
      simp only [List.nil_append, List.length_nil, isDigitsEnd, List.drop_nil, true_or, and_true]
      omega
  | case2 c rest digit inductionHypothesis =>
      rw [List.cons_append, List.cons_append, digitsLength, if_pos digit]
      simp only [Nat.add_comm 2, List.drop_succ_cons, List.length_cons]
      exact inductionHypothesis.imp (by omega) (.imp_left (by omega))
  | case3 c rest digit =>
      rw [List.cons_append, List.cons_append, digitsLength, if_neg digit]
      exact .inl rfl
  | case4 c rest single digit inductionHypothesis =>
      have different : c ≠ '_' := by
        rintro rfl
        simp [separator] at digit
      rw [List.cons_append, digitsLength_cons isDigit (by simp [different]), if_pos digit]
      simp only [Nat.add_comm 1, List.drop_succ_cons, List.length_cons]
      exact inductionHypothesis.imp (by omega) (.imp_left (by omega))
  | case5 c rest single digit =>
      by_cases goes : c = '_' ∧ rest ++ added ≠ []
      · obtain ⟨rfl, more⟩ := goes
        cases rest with
        | cons next rest => exact absurd rfl (single next rest rfl)
        | nil =>
            cases added with
            | nil => exact absurd rfl more
            | cons next others =>
                rw [List.cons_append, List.nil_append, digitsLength]
                split
                · right
                  refine ⟨?_, .inr rfl⟩
                  simp only [List.length_cons, List.length_nil]
                  omega
                · exact .inl rfl
      · left
        rw [List.cons_append, digitsLength_cons isDigit goes, if_neg digit]

/-- Digits with separators between them are settled. -/
theorem settled_digitsLength (separator : isDigit '_' = false) :
    Settled (digitsLength isDigit) := by
  intro text added
  exact (digitsLength_append isDigit separator text added).imp_right And.left

/-- A run of digits is part of the text. -/
theorem runLength_le (cs : List Char) : runLength isDigit cs ≤ cs.length := by
  unfold runLength
  split
  · split
    · exact digitsLength_le isDigit _
    · omega
  · omega

/-- More text leaves a run of digits as it is, or goes on with it. -/
theorem runLength_append (separator : isDigit '_' = false) (text added : List Char) :
    runLength isDigit (text ++ added) = runLength isDigit text ∨
      text.length < runLength isDigit (text ++ added) ∧
        isDigitsEnd (text.drop (runLength isDigit text)) := by
  cases text with
  | nil =>
      simp only [List.nil_append, List.length_nil, isDigitsEnd, List.drop_nil, true_or, and_true,
        show runLength isDigit [] = 0 from rfl]
      omega
  | cons c rest =>
      simp only [List.cons_append, runLength]
      split
      · exact digitsLength_append isDigit separator (c :: rest) added
      · exact .inl rfl

/-- A run of digits is settled. -/
theorem settled_runLength (separator : isDigit '_' = false) : Settled (runLength isDigit) := by
  intro text added
  exact (runLength_append isDigit separator text added).imp_right And.left

/-- A number with a radix has two characters in front of its digits. -/
theorem radixLength_eq (cs : List Char) : radixLength isDigit cs =
    if runLength isDigit (cs.drop 2) = 0 then 0 else 2 + runLength isDigit (cs.drop 2) := by
  unfold radixLength
  split
  · rename_i none
    exact (if_pos none).symm
  · rename_i some
    exact (if_neg some).symm

/-- A number with a radix is settled. -/
theorem settled_radixLength (separator : isDigit '_' = false) : Settled (radixLength isDigit) := by
  intro text added
  match text with
  | [] | [_] =>
      have none : runLength isDigit [] = 0 := rfl
      simp only [radixLength_eq, List.cons_append, List.nil_append, List.drop_succ_cons,
        List.drop_nil, none, List.length_cons, List.length_nil, if_true]
      split <;> omega
  | a :: b :: rest =>
      have tail := settled_runLength isDigit separator rest added
      simp only [radixLength_eq, List.cons_append, List.drop_succ_cons, List.drop_zero,
        List.length_cons]
      split <;> split <;> omega

end

/-- A number that does not begin with zero is a run of decimal digits. -/
theorem integerLength_decimal {c : Char} (different : c ≠ '0') (rest : List Char) :
    integerLength (c :: rest) = runLength Char.isDigit (c :: rest) := by
  rw [integerLength]
  intro next others same
  exact different (List.cons.inj same).1

/-- An integer is settled. -/
theorem settled_integerLength : Settled integerLength := by
  intro text added
  match text with
  | [] =>
      simp only [List.nil_append, List.length_nil, show integerLength [] = 0 from rfl]
      omega
  | c :: rest =>
      by_cases zero : c = '0'
      · subst zero
        match rest with
        | [] =>
            cases added with
            | nil => exact .inl rfl
            | cons next others =>
                have alone : integerLength ['0'] = 1 := by decide
                rw [alone]
                simp only [List.cons_append, List.nil_append, integerLength, List.length_cons,
                  List.length_nil]
                repeat' split
                all_goals omega
        | next :: rest =>
            have hex := settled_radixLength isHex (by decide) ('0' :: next :: rest) added
            have binary :=
              settled_radixLength isBinary (by decide) ('0' :: next :: rest) added
            have octal := settled_digitsLength isOctal (by decide) rest added
            have digits :=
              settled_digitsLength isOctal (by decide) (next :: rest) added
            simp only [List.cons_append, List.length_cons] at hex binary octal digits ⊢
            simp only [integerLength]
            repeat' split
            all_goals omega
      · rw [List.cons_append, integerLength_decimal zero, integerLength_decimal zero]
        exact settled_runLength Char.isDigit (by decide) (c :: rest) added

/-- The sign of an exponent, if there is one. -/
def signLength (cs : List Char) : Nat :=
  if cs.head? == some '+' || cs.head? == some '-' then 1 else 0

/-- An exponent has a letter, perhaps a sign, and digits. -/
theorem exponentLength_cons (mark : Char) (rest : List Char) : exponentLength (mark :: rest) =
    if mark == 'e' || mark == 'E' then
      if runLength Char.isDigit (rest.drop (signLength rest)) = 0 then 0
      else 1 + signLength rest + runLength Char.isDigit (rest.drop (signLength rest))
    else 0 := by
  change (if mark == 'e' || mark == 'E' then _ else 0) = _
  congr 1
  split
  · rename_i none
    exact (if_pos none).symm
  · rename_i some
    exact (if_neg some).symm

/-- An exponent is settled. -/
theorem settled_exponentLength : Settled exponentLength := by
  intro text added
  match text with
  | [] =>
      simp only [List.nil_append, List.length_nil, show exponentLength [] = 0 from rfl]
      omega
  | [mark] =>
      have alone : exponentLength [mark] = 0 := by simp [exponentLength, runLength]
      rw [alone, List.cons_append, exponentLength_cons]
      simp only [List.length_cons, List.length_nil]
      repeat' split
      all_goals omega
  | mark :: sign :: rest =>
      have same : signLength (sign :: rest ++ added) = signLength (sign :: rest) := rfl
      have le : signLength (sign :: rest) ≤ (sign :: rest).length := by
        simp only [signLength, List.length_cons]
        split <;> omega
      have digits := settled_runLength Char.isDigit (by decide)
        ((sign :: rest).drop (signLength (sign :: rest))) added
      rw [← List.drop_append_of_le_length le, List.length_drop] at digits
      rw [List.cons_append, exponentLength_cons, exponentLength_cons, same, List.length_cons]
      repeat' split
      all_goals omega

/-- The point and the digits of a number after it. -/
def fractionLength (cs : List Char) : Nat :=
  if cs.head? == some '.' then 1 + runLength Char.isDigit (cs.drop 1) else 0

/-- A fraction is settled. -/
theorem settled_fractionLength : Settled fractionLength := by
  intro text added
  cases text with
  | nil =>
      simp only [List.nil_append, List.length_nil, show fractionLength [] = 0 from rfl]
      omega
  | cons c rest =>
      have digits := settled_runLength Char.isDigit (by decide) rest added
      simp only [fractionLength, List.cons_append, List.head?_cons, List.drop_succ_cons,
        List.drop_zero, List.length_cons]
      split <;> omega

/-- A fraction is part of the text. -/
theorem fractionLength_le (cs : List Char) : fractionLength cs ≤ cs.length := by
  have digits := runLength_le Char.isDigit (cs.drop 1)
  cases cs with
  | nil => exact Nat.le_refl _
  | cons c rest =>
      simp only [List.drop_succ_cons, List.drop_zero] at digits
      simp only [fractionLength, List.drop_succ_cons, List.drop_zero, List.length_cons]
      split <;> omega

/-- Neither a point nor an exponent stands where more digits can follow. -/
theorem isDigitsEnd.fraction {rest : List Char} (ending : isDigitsEnd rest) :
    fractionLength rest = 0 ∧ exponentLength rest = 0 := by
  rcases ending with rfl | rfl <;> exact ⟨rfl, rfl⟩

/-- The length of a number from the lengths of its parts. -/
def joinedLength (whole fraction scale : Nat) : Nat :=
  if fraction + scale == 0 || whole + fraction == 0 || whole + fraction == 1 && fraction == 1 then 0
  else whole + fraction + scale

/-- A number is measured by its parts. -/
theorem realLength_eq (cs : List Char) : realLength cs =
    joinedLength (runLength Char.isDigit cs)
      (fractionLength (cs.drop (runLength Char.isDigit cs)))
      (exponentLength ((cs.drop (runLength Char.isDigit cs)).drop
        (fractionLength (cs.drop (runLength Char.isDigit cs))))) :=
  rfl

/-- A number with a fraction or an exponent is settled. -/
theorem settled_realLength : Settled realLength := by
  intro text added
  have wholeFits := runLength_le Char.isDigit text
  rw [realLength_eq, realLength_eq]
  rcases runLength_append Char.isDigit (by decide) text added with
    same | ⟨beyond, ending⟩
  · rw [same, List.drop_append_of_le_length wholeFits]
    have restLength := List.length_drop (i := runLength Char.isDigit text) (l := text)
    generalize runLength Char.isDigit text = whole at wholeFits restLength ⊢
    generalize text.drop whole = rest at restLength ⊢
    have fractionFits := fractionLength_le rest
    rcases settled_fractionLength rest added with same | beyond
    · have scale := settled_exponentLength (rest.drop (fractionLength rest)) added
      rw [same, List.drop_append_of_le_length fractionFits]
      rw [List.length_drop] at scale
      simp only [joinedLength, Bool.or_eq_true, Bool.and_eq_true, beq_iff_eq]
      split <;> split <;> omega
    · -- A point at the end of the text alone is no number, and neither is the text before it.
      have alone : whole = 0 → rest.length = 0 → fractionLength rest = 0 ∧
          exponentLength (rest.drop (fractionLength rest)) = 0 := by
        intro _ empty
        obtain rfl := List.length_eq_zero_iff.mp empty
        exact ⟨rfl, rfl⟩
      simp only [joinedLength, Bool.or_eq_true, Bool.and_eq_true, beq_iff_eq]
      split <;> split <;> omega
  · obtain ⟨fraction, scale⟩ := ending.fraction
    rw [fraction, List.drop_zero, scale, show ∀ whole, joinedLength whole 0 0 = 0 from fun _ => rfl]
    simp only [joinedLength]
    split <;> omega

/-- A point and a digit begin a number. -/
theorem realLength_point {d : Char} (digit : d.isDigit = true) (rest : List Char) :
    2 ≤ realLength ('.' :: d :: rest) := by
  have whole : runLength Char.isDigit ('.' :: d :: rest) = 0 := rfl
  have digits : 1 ≤ runLength Char.isDigit (d :: rest) := by
    have different : d ≠ '_' := by
      rintro rfl
      cases digit
    rw [runLength, if_pos digit, digitsLength_cons Char.isDigit (by simp [different]), if_pos digit]
    omega
  have fraction : fractionLength ('.' :: d :: rest) = 1 + runLength Char.isDigit (d :: rest) := rfl
  rw [realLength_eq, whole, List.drop_zero, fraction]
  simp only [joinedLength, Bool.or_eq_true, Bool.and_eq_true, beq_iff_eq]
  split <;> omega

end Untranslated.Php
