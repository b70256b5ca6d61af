/-
This file proves that the arguments of a directive end with the bracket that closes them.
-/

import Untranslated.Blade.Directive
import Mathlib.Data.List.TakeWhile

namespace Untranslated.Blade

/-- A beginning that is kept and what is dropped behind it are the whole row. -/
theorem takeWhile_append_drop {A : Type} (keep : A → Bool) (values : List A) :
    values.takeWhile keep ++ values.drop (values.takeWhile keep).length = values :=
  List.prefix_iff_eq_append.mp (List.takeWhile_prefix keep)

theorem drop_takeWhile {A : Type} (keep : A → Bool) (values : List A) :
    values.drop (values.takeWhile keep).length = values.dropWhile keep :=
  List.append_cancel_left ((takeWhile_append_drop keep values).trans
    List.takeWhile_append_dropWhile.symm)

/-- A row is kept up to the first value that fails the test. -/
theorem takeWhile_stops {A : Type} {keep : A → Bool} {front back : List A}
    (own : ∀ a ∈ front, keep a = true) (stops : ∀ a ∈ back.head?, keep a = false) :
    (front ++ back).takeWhile keep = front := by
  rw [List.takeWhile_append_of_pos own]
  cases back with
  | nil => simp
  | cons a rest => rw [List.takeWhile_cons_of_neg (by simpa using stops a rfl), List.append_nil]

theorem balancedLength?_open (rest : List Char) :
    balancedLength? ('(' :: rest) = (closingLength? 1 none rest).map (· + 1) := rfl

/-- A closing bracket stands at the end of what it closes. -/
theorem closingLength?_append {depth size : Nat} {mark : Option Char} {cs : List Char}
    (found : closingLength? depth mark cs = some size) :
    ∃ inside later, cs = inside ++ ')' :: later ∧ size = inside.length + 1 := by
  fun_induction closingLength? depth mark cs generalizing size with
  | case1 => simp at found
  | case2 => simp at found
  | case3 depth mark c quoted escaped later inductionHypothesis =>
      obtain ⟨rest, inner, rfl⟩ := Option.map_eq_some_iff.mp found
      obtain ⟨inside, tail, rfl, rfl⟩ := inductionHypothesis inner
      exact ⟨c :: escaped :: inside, tail, rfl, by simp⟩
  | case8 depth c rest _ _ closing enough =>
      obtain rfl : c = ')' := by simpa using closing
      exact ⟨[], rest, rfl, by simpa using found.symm⟩
  | case4 depth mark c rest _ _ inductionHypothesis
  | case5 depth mark c rest _ _ inductionHypothesis
  | case6 depth c rest _ inductionHypothesis
  | case7 depth c rest _ _ inductionHypothesis
  | case9 depth c rest _ _ _ _ inductionHypothesis
  | case10 depth c rest _ _ _ inductionHypothesis =>
      obtain ⟨size, inner, rfl⟩ := Option.map_eq_some_iff.mp found
      obtain ⟨inside, tail, rfl, rfl⟩ := inductionHypothesis inner
      exact ⟨c :: inside, tail, rfl, rfl⟩

/-- Arguments are what follows a directive, with their gap and their brackets. -/
theorem arguments?_append {cs : List Char} {arguments : Arguments}
    (found : arguments? cs = some arguments) :
    ∃ later, cs = arguments.gap ++ '(' :: arguments.inside ++ ')' :: later := by
  have joined := takeWhile_append_drop isGap cs
  simp only [arguments?] at found
  cases opens : cs.drop (cs.takeWhile isGap).length with
  | nil => simp [opens] at found
  | cons c rest =>
      rw [opens] at found joined
      split at found
      · rename_i bracket
        obtain rfl : c = '(' := by simpa using bracket
        obtain ⟨size, closes, rfl⟩ := Option.map_eq_some_iff.mp found
        rw [balancedLength?_open] at closes
        obtain ⟨inner, length, rfl⟩ := Option.map_eq_some_iff.mp closes
        obtain ⟨inside, later, rfl, rfl⟩ := closingLength?_append length
        exact ⟨later, by simpa using joined.symm⟩
      · simp at found

/-- Text between quotes. A backslash takes the next character with it. -/
inductive Quoted (mark : Char) : List Char → Prop where
  | nil : Quoted mark []
  | plain {c : Char} {rest : List Char} (noEscape : c ≠ '\\') (inside : c ≠ mark)
      (quoted : Quoted mark rest) : Quoted mark (c :: rest)
  | escaped {c : Char} {rest : List Char} (quoted : Quoted mark rest) :
      Quoted mark ('\\' :: c :: rest)

/-- Brackets come in pairs, save those between quotes. -/
inductive Balanced : List Char → Prop where
  | nil : Balanced []
  | plain {c : Char} {rest : List Char} (noQuote : isQuote c = false) (noOpening : c ≠ '(')
      (noClosing : c ≠ ')') (balanced : Balanced rest) : Balanced (c :: rest)
  | quoted {mark : Char} {inside rest : List Char} (quote : isQuote mark = true)
      (quoted : Quoted mark inside) (balanced : Balanced rest) :
      Balanced (mark :: inside ++ mark :: rest)
  | nested {inside rest : List Char} (inner : Balanced inside) (balanced : Balanced rest) :
      Balanced ('(' :: inside ++ ')' :: rest)

section

variable {inside rest : List Char}

/-- The scan passes over quoted text as a whole. -/
theorem closingLength?_quoted {mark : Char} (quoted : Quoted mark inside) (escapes : mark ≠ '\\')
    (depth : Nat) (rest : List Char) :
    closingLength? depth (some mark) (inside ++ mark :: rest) =
      (closingLength? depth none rest).map (· + (inside.length + 1)) := by
  induction quoted with
  | nil =>
      rw [List.nil_append, closingLength?.eq_def]
      simp [escapes]
  | @plain c later noEscape noMark quoted inductionHypothesis =>
      rw [List.cons_append, closingLength?.eq_def]
      simp [noEscape, noMark, inductionHypothesis, Function.comp_def, Nat.add_assoc]
  | @escaped c later quoted inductionHypothesis =>
      rw [List.cons_append, List.cons_append, closingLength?.eq_def]
      simp [inductionHypothesis, Function.comp_def, Nat.add_assoc]

/-- The scan passes over balanced text as a whole, at any depth. -/
theorem closingLength?_balanced (balanced : Balanced inside) (depth : Nat) (rest : List Char) :
    closingLength? (depth + 1) none (inside ++ rest) =
      (closingLength? (depth + 1) none rest).map (· + inside.length) := by
  induction balanced generalizing depth rest with
  | nil => simp
  | @plain c later noQuote noOpening noClosing balanced inductionHypothesis =>
      rw [List.cons_append, closingLength?.eq_def]
      simp [noQuote, noOpening, noClosing, inductionHypothesis, Function.comp_def, Nat.add_assoc]
  | @quoted mark inside later quote quoted balanced inductionHypothesis =>
      have escapes : mark ≠ '\\' := by
        rintro rfl
        exact absurd quote (by decide)
      rw [List.append_assoc, List.cons_append, List.cons_append, closingLength?.eq_def]
      simp [quote, closingLength?_quoted quoted escapes, inductionHypothesis, Function.comp_def,
        Nat.add_assoc, Nat.add_comm, Nat.add_left_comm]
  | @nested inside later inner balanced innerHypothesis inductionHypothesis =>
      have closes : closingLength? (depth + 2) none (')' :: (later ++ rest)) =
          (closingLength? (depth + 1) none (later ++ rest)).map (· + 1) := by
        rw [closingLength?.eq_def]
        simp [isQuote]
      rw [List.append_assoc, List.cons_append, List.cons_append, closingLength?.eq_def]
      simp [isQuote, innerHypothesis, closes, inductionHypothesis, Function.comp_def,
        Nat.add_assoc, Nat.add_comm, Nat.add_left_comm]

/-- Balanced arguments in brackets end with the bracket that closes the first one. -/
theorem balancedLength?_balanced (balanced : Balanced inside) (rest : List Char) :
    balancedLength? ('(' :: inside ++ ')' :: rest) = some (inside.length + 2) := by
  have closes : closingLength? 1 none (')' :: rest) = some 1 := rfl
  rw [List.cons_append, balancedLength?_open, closingLength?_balanced balanced 0, closes]
  simp [Nat.add_comm, Nat.add_left_comm]

/-- A balanced text in brackets is read as arguments, with the gap in front of it. -/
theorem arguments?_balanced {gap : List Char} (blank : ∀ c ∈ gap, isGap c = true)
    (balanced : Balanced inside) (rest : List Char) :
    arguments? (gap ++ '(' :: inside ++ ')' :: rest) = some ⟨gap, inside⟩ := by
  have own : (gap ++ ('(' :: inside ++ ')' :: rest)).takeWhile isGap = gap := by
    rw [List.takeWhile_append_of_pos blank, List.cons_append,
      List.takeWhile_cons_of_neg (by decide), List.append_nil]
  rw [List.append_assoc]
  simp only [arguments?, own, List.drop_left, balancedLength?_balanced balanced rest]
  simp

end

end Untranslated.Blade
