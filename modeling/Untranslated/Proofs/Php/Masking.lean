/-
This file proves that masking goes part by part around a character that no XML declaration holds.
-/

import Untranslated.Php.Source

namespace Untranslated.Php

/-- A character that stands neither in an opening tag nor in the word behind one. -/
structure Separates (c : Char) : Prop where
  noBracket : c ≠ '<'
  noMark : c ≠ '?'
  noWord : isAsciiWord c = false

/-- Only opening tags are masked. -/
theorem mask_cons {c : Char} {rest : List Char}
    (plain : ∀ others, ¬(c = '<' ∧ rest = '?' :: others)) : mask (c :: rest) = c :: mask rest := by
  rw [mask]
  rintro others rfl rfl
  exact plain others ⟨rfl, rfl⟩

/-- A separator is no letter of a word in any case. -/
theorem Separates.lower {c : Char} (separates : Separates c) {letter : Char}
    (word : isAsciiWord letter = true) : lowerAscii c ≠ letter := by
  have noWord := separates.noWord
  have noCapital : c.isUpper = false := by
    have noAlphanum : (c.isAlpha || c.isDigit) = false := (Bool.or_eq_false_iff.mp noWord).1
    have noAlpha : (c.isUpper || c.isLower) = false := (Bool.or_eq_false_iff.mp noAlphanum).1
    exact (Bool.or_eq_false_iff.mp noAlpha).1
  have same : lowerAscii c = c := by
    have outside : ¬(c.val ≥ 'A'.val ∧ c.val ≤ 'Z'.val) := of_decide_eq_false noCapital
    exact dif_neg outside
  rw [same]
  rintro rfl
  rw [noWord] at word
  cases word

/-- Such a character ends the word of a declaration as the end of the text does. -/
theorem beginsXml_append {c : Char} (separates : Separates c) (front back : List Char) :
    beginsXml (front ++ c :: back) = beginsXml front := by
  have noX := separates.lower (rfl : isAsciiWord 'x' = true)
  have noM := separates.lower (rfl : isAsciiWord 'm' = true)
  have noL := separates.lower (rfl : isAsciiWord 'l' = true)
  match front with
  | [] => simp [beginsXml, noX]
  | [_] => simp [beginsXml, noM]
  | [_, _] => simp [beginsXml, noL]
  | [_, _, _] => simp [beginsXml, separates.noWord]
  | _ :: _ :: _ :: _ :: _ => simp [beginsXml]

/-- The text on either side of a separator is masked on its own. -/
theorem mask_around {c : Char} (separates : Separates c) (front back : List Char) :
    mask (front ++ c :: back) = mask front ++ c :: mask back := by
  fun_induction mask front with
  | case1 => exact mask_cons fun _ wrong => separates.noBracket wrong.1
  | case2 rest inductionHypothesis =>
      rw [List.cons_append, List.cons_append, mask, beginsXml_append separates,
        inductionHypothesis]
      rfl
  | case3 first rest different inductionHypothesis =>
      rw [List.cons_append, mask_cons, inductionHypothesis]
      · rfl
      · rintro others ⟨rfl, same⟩
        cases rest with
        | nil => exact separates.noMark (List.cons.inj same).1
        | cons next rest =>
            obtain ⟨rfl, -⟩ := List.cons.inj same
            exact different rest rfl rfl

/-- Without an opening tag nothing is masked. -/
theorem mask_plain {text : List Char} (plain : ¬['<', '?'] <:+: text) : mask text = text := by
  fun_induction mask text with
  | case1 => rfl
  | case2 rest => exact absurd ⟨[], rest, rfl⟩ plain
  | case3 c rest different inductionHypothesis =>
      rw [inductionHypothesis fun inside => plain (inside.trans (List.suffix_cons c rest).isInfix)]

end Untranslated.Php
