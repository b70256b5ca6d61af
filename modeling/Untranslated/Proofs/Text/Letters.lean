/-
This file defines texts that differ in the case of ASCII letters alone, and proves which functions
of texts do not see the difference or pass it on. Dollar signs have no case at all.
-/

import Untranslated.Proofs.Text.Splitting
import Untranslated.Text.Lower

namespace Untranslated

/-- The small letter of an ASCII capital. Any other code point stays. -/
def CodePoint.small (c : CodePoint) : CodePoint :=
  if capital : 0x41 ≤ c.value ∧ c.value ≤ 0x5A then ⟨c.value + 0x20, by omega⟩ else c

/-- The capitals of ASCII by their numbers. -/
def CodePoint.capital (n : Fin 26) : CodePoint := ⟨0x41 + n, by omega⟩

/-- A function does not see the case of ASCII letters. -/
def Caseless {A : Type} (f : CodePoint → A) : Prop := ∀ c, f c.small = f c

/-- It is enough to look at the capitals. -/
theorem caseless_of_letters {A : Type} {f : CodePoint → A}
    (letters : ∀ n, f (CodePoint.capital n).small = f (CodePoint.capital n)) : Caseless f := by
  intro c
  by_cases capital : 0x41 ≤ c.value ∧ c.value ≤ 0x5A
  · have is : c = CodePoint.capital ⟨c.value - 0x41, by omega⟩ := by
      cases c
      simp only [CodePoint.capital, CodePoint.mk.injEq] at capital ⊢
      omega
    rw [is]
    exact letters _
  · rw [CodePoint.small, dif_neg capital]

theorem Caseless.comp {A : Type} {f : CodePoint → A} (caseless : Caseless f) :
    f ∘ CodePoint.small = f := funext caseless

/-- The small letters follow in the order of the capitals. -/
theorem CodePoint.small_capital (n : Fin 26) : (capital n).small.value = 0x61 + n := by
  revert n
  decide

namespace Text

/-- What the tables tell of a character. -/
def tableFacts (c : CodePoint) : Bool × Bool × Bool × Bool × Text :=
  (isBlank c, isWord c, isCased c, isCaseIgnorable c, lowerPoint c)

/-- The tables do not tell capitals from small letters. -/
theorem caseless_tableFacts : Caseless tableFacts := caseless_of_letters (by decide +kernel)

theorem caseless_isBlank : Caseless isBlank := fun c => congrArg (·.1) (caseless_tableFacts c)

theorem caseless_isWord : Caseless isWord := fun c => congrArg (·.2.1) (caseless_tableFacts c)

theorem caseless_isCased : Caseless isCased := fun c => congrArg (·.2.2.1) (caseless_tableFacts c)

theorem caseless_isCaseIgnorable : Caseless isCaseIgnorable :=
  fun c => congrArg (·.2.2.2.1) (caseless_tableFacts c)

theorem caseless_lowerPoint : Caseless lowerPoint :=
  fun c => congrArg (·.2.2.2.2) (caseless_tableFacts c)

/-- Other characters than letters have no case. -/
theorem caseless_value {n : Nat} (noLetter : n < 0x41 ∨ (0x5A < n ∧ n < 0x61) ∨ 0x7A < n) :
    Caseless fun c => c.value == n := by
  refine caseless_of_letters fun letter => ?_
  have below := letter.isLt
  have capital : (CodePoint.capital letter).value = 0x41 + letter := rfl
  rw [CodePoint.small_capital, capital, Bool.eq_iff_iff, beq_iff_eq, beq_iff_eq]
  omega

/-- A text in small ASCII letters. -/
def small (t : Text) : Text := t.map CodePoint.small

/-- Texts that differ at most in the case of ASCII letters. -/
def SameLetters (s t : Text) : Prop := s.small = t.small

section

variable {test : CodePoint → Bool} (t : Text)

@[simp] theorem small_nil : small [] = [] := rfl

@[simp] theorem small_cons (c : CodePoint) (rest : Text) :
    small (c :: rest) = c.small :: small rest := rfl

@[simp] theorem small_append (s : Text) : small (s ++ t) = small s ++ small t := List.map_append

@[simp] theorem small_isEmpty : t.small.isEmpty = t.isEmpty := List.isEmpty_map

@[simp] theorem small_length : t.small.length = t.length := List.length_map _

theorem small_drop (count : Nat) : t.small.drop count = small (t.drop count) := List.map_drop.symm

theorem small_take (count : Nat) : t.small.take count = small (t.take count) := List.map_take.symm

theorem small_dropLast : t.small.dropLast = small t.dropLast := List.map_dropLast.symm

theorem small_reverse : t.small.reverse = small t.reverse := List.map_reverse.symm

/-- A caseless run is left out of small letters as well. -/
theorem small_dropWhile (caseless : Caseless test) :
    t.small.dropWhile test = small (t.dropWhile test) := by
  rw [small, List.dropWhile_map, caseless.comp]
  rfl

/-- A caseless run is taken of small letters as well. -/
theorem small_takeWhile (caseless : Caseless test) :
    t.small.takeWhile test = small (t.takeWhile test) := by
  rw [small, List.takeWhile_map, caseless.comp]
  rfl

theorem small_all (caseless : Caseless test) : t.small.all test = t.all test := by
  rw [small, List.all_map, caseless.comp]

theorem small_any (caseless : Caseless test) : t.small.any test = t.any test := by
  rw [small, List.any_map, caseless.comp]

/-- A caseless end is left out of small letters as well. -/
theorem small_trimEnd (caseless : Caseless test) :
    trimEnd test t.small = small (trimEnd test t) := by
  rw [trimEnd, trimEnd, small_reverse, small_dropWhile _ caseless, small_reverse]

/-- Blanks around a text have no case. -/
theorem small_strip : strip t.small = small (strip t) := by
  rw [strip, strip, trim, trim, trimStart, trimStart, small_dropWhile _ caseless_isBlank,
    small_trimEnd _ caseless_isBlank]

/-- Small letters are split where the letters are. -/
theorem small_splitWhere (caseless : Caseless test) :
    splitWhere test t.small = (splitWhere test t).map small := by
  induction t with
  | nil => rfl
  | cons c rest inductionHypothesis =>
      rw [small_cons, splitWhere, splitWhere, caseless c, inductionHypothesis]
      split
      · rfl
      · cases splitWhere test rest <;> rfl

/-- The words in small letters are the small words. -/
theorem small_words : words t.small = (words t).map small := by
  rw [words, words, small_splitWhere _ caseless_isBlank, List.filter_map]
  congr 1
  exact List.filter_congr fun part _ => by simp

theorem small_getLast? : t.small.getLast? = t.getLast?.map CodePoint.small := List.getLast?_map

end

/-- Whether a letter follows does not depend on its case. -/
theorem beginsCased_small (t : Text) : beginsCased t.small = beginsCased t := by
  rw [beginsCased, beginsCased, small_dropWhile _ caseless_isCaseIgnorable]
  cases t.dropWhile isCaseIgnorable with
  | nil => rfl
  | cons c rest => exact caseless_isCased c

/-- The lower case of small letters is that of the letters. -/
theorem lowerFrom_small (t : Text) (reversed : Text) :
    lowerFrom reversed.small t.small = lowerFrom reversed t := by
  induction t generalizing reversed with
  | nil => rfl
  | cons c rest inductionHypothesis =>
      have sigma : (c.small.value == 0x3A3) = (c.value == 0x3A3) := caseless_value (by decide) c
      have later := inductionHypothesis (c :: reversed)
      rw [small_cons] at later
      rw [small_cons, lowerFrom, lowerFrom, sigma, beginsCased_small, beginsCased_small,
        caseless_lowerPoint c, later]

/-- A text and its small form have the same lower case. -/
theorem lower_small (t : Text) : lower t.small = lower t := lowerFrom_small t []

/-- Texts with the same letters have the same lower case. -/
theorem SameLetters.lower {s t : Text} (same : SameLetters s t) : lower s = lower t := by
  rw [← lower_small, same, lower_small]

/-- No other code point has a dollar sign in its lower case. -/
theorem mem_lowerPoint {c : CodePoint} (member : CodePoint.ofChar '$' ∈ lowerPoint c) :
    c = .ofChar '$' := by
  have above : capitalRuns.all (fun run => decide (36 < run.first + run.distance)) = true := by
    decide +kernel
  unfold lowerPoint at member
  split at member
  · exact absurd member (by decide)
  · split at member
    · exact (List.mem_singleton.mp member).symm
    · next run found =>
      have far := of_decide_eq_true
        (List.all_eq_true.mp above run (List.mem_of_find?_eq_some found))
      have holds := List.find?_some found
      simp only [CapitalRun.holds, Bool.and_eq_true, decide_eq_true_eq] at holds
      split at member
      · exact (List.mem_singleton.mp member).symm
      · next small is =>
        have value : small.value = Int.toNat (c.value + run.distance) := by
          unfold CodePoint.ofNat? at is
          split at is
          · cases is
            rfl
          · cases is
        rw [← List.mem_singleton.mp member] at value
        change 36 = _ at value
        omega

/-- A dollar in lower case was a dollar before. -/
theorem mem_lowerFrom {reversed : Text} (member : CodePoint.ofChar '$' ∈ lowerFrom reversed t) :
    CodePoint.ofChar '$' ∈ t := by
  induction t generalizing reversed with
  | nil => cases member
  | cons c rest inductionHypothesis =>
      rcases List.mem_append.mp member with own | later
      · split at own
        · exact absurd own (by decide)
        · exact List.mem_cons.mpr (.inl (mem_lowerPoint own).symm)
      · exact List.mem_cons_of_mem c (inductionHypothesis later)

/-- A dollar behind a text is no letter. -/
theorem beginsCased_dollar (t : Text) : beginsCased (t ++ [.ofChar '$']) = beginsCased t := by
  have stops : isCaseIgnorable (.ofChar '$') = false := by decide +kernel
  have uncased : isCased (.ofChar '$') = false := by decide +kernel
  rw [beginsCased, beginsCased, dropWhile_snoc stops]
  cases t.dropWhile isCaseIgnorable with
  | nil => exact uncased
  | cons c rest => rfl

/-- A dollar in front of a text does not change its lower case. -/
theorem lowerFrom_dollar (t reversed : Text) :
    lowerFrom (reversed ++ [.ofChar '$']) t = lowerFrom reversed t := by
  induction t generalizing reversed with
  | nil => rfl
  | cons c rest inductionHypothesis =>
      rw [lowerFrom, lowerFrom, beginsCased_dollar, ← List.cons_append, inductionHypothesis]

/-- Dollar signs in front of a text do not belong to its words. -/
theorem lower_dollars {dollars : Text} (signs : ∀ c ∈ dollars, c = CodePoint.ofChar '$')
    (t : Text) : lower (dollars ++ t) = dollars ++ lower t := by
  have sign : lowerPoint (.ofChar '$') = [.ofChar '$'] := by decide +kernel
  induction dollars with
  | nil => rfl
  | cons c dollars inductionHypothesis =>
      obtain ⟨rfl, others⟩ := List.forall_mem_cons.mp signs
      have behind : lowerFrom [.ofChar '$'] (dollars ++ t) = lower (dollars ++ t) :=
        lowerFrom_dollar _ []
      have noSigma : ((CodePoint.ofChar '$').value == 0x3A3) = false := by decide
      rw [List.cons_append, lower, lowerFrom, noSigma, Bool.false_and, Bool.false_and, sign, behind,
        inductionHypothesis others]
      rfl

end Text

end Untranslated
