/-
This file proves that a bracket is closed exactly where a balanced text behind it ends, and that
a directive takes such a text for its arguments or takes nothing.
-/

import Untranslated.Blade.Segment
import Untranslated.Proofs.Blade.Arguments

namespace Untranslated.Blade

/-- Inside so many brackets more than one, balanced texts stand in a row, each with the bracket
that closes its own. The last one is still open. -/
def Unwinds : Nat → List Char → Prop
  | 0, inside => Balanced inside
  | depth + 1, inside =>
    ∃ front rest, inside = front ++ ')' :: rest ∧ Balanced front ∧ Unwinds depth rest

/-- What stands in front of a balanced text and leaves it balanced also does so inside brackets. -/
theorem Unwinds.extend {front : List Char}
    (item : ∀ rest, Balanced rest → Balanced (front ++ rest)) {depth : Nat} {inside : List Char}
    (unwinds : Unwinds depth inside) : Unwinds depth (front ++ inside) := by
  cases depth with
  | zero => exact item inside unwinds
  | succ depth =>
      obtain ⟨first, rest, rfl, balanced, later⟩ := unwinds
      exact ⟨front ++ first, rest, by simp, item first balanced, later⟩

/-- An opening bracket in front waits for one closing bracket more. -/
theorem Unwinds.opening {depth : Nat} {inside : List Char} (unwinds : Unwinds (depth + 1) inside) :
    Unwinds depth ('(' :: inside) := by
  obtain ⟨first, rest, rfl, balanced, later⟩ := unwinds
  have nested : Unwinds depth ('(' :: first ++ [')'] ++ rest) :=
    later.extend fun rest own => by simpa using Balanced.nested balanced own
  simpa using nested

/-- A closing bracket in front ends the innermost bracket. -/
theorem Unwinds.closing {depth : Nat} {inside : List Char} (unwinds : Unwinds depth inside) :
    Unwinds (depth + 1) (')' :: inside) :=
  ⟨[], inside, rfl, .nil, unwinds⟩

/-- Where a scan inside a quotation goes on, the quotation is closed first. -/
def Resumes (depth : Nat) : Option Char → List Char → Prop
  | none, inside => Unwinds depth inside
  | some mark, inside =>
    ∃ shown rest, inside = shown ++ mark :: rest ∧ Quoted mark shown ∧ Unwinds depth rest

/-- A plain character continues the quotation. -/
theorem Resumes.plain {depth : Nat} {mark c : Char} {inside : List Char}
    (resumes : Resumes depth (some mark) inside) (noEscape : c ≠ '\\') (noMark : c ≠ mark) :
    Resumes depth (some mark) (c :: inside) := by
  obtain ⟨shown, rest, rfl, quoted, unwinds⟩ := resumes
  exact ⟨c :: shown, rest, rfl, .plain noEscape noMark quoted, unwinds⟩

/-- A backslash takes the next character into the quotation. -/
theorem Resumes.escaped {depth : Nat} {mark c : Char} {inside : List Char}
    (resumes : Resumes depth (some mark) inside) :
    Resumes depth (some mark) ('\\' :: c :: inside) := by
  obtain ⟨shown, rest, rfl, quoted, unwinds⟩ := resumes
  exact ⟨'\\' :: c :: shown, rest, rfl, .escaped quoted, unwinds⟩

/-- A quote in front opens the quotation that is closed further on. -/
theorem Resumes.quote {depth : Nat} {mark : Char} {inside : List Char}
    (resumes : Resumes depth (some mark) inside) (quote : isQuote mark = true) :
    Resumes depth none (mark :: inside) := by
  obtain ⟨shown, rest, rfl, quoted, unwinds⟩ := resumes
  have extended : Unwinds depth (mark :: shown ++ [mark] ++ rest) :=
    unwinds.extend fun rest own => by simpa using Balanced.quoted quote quoted own
  simpa [Resumes] using extended

/-- A scan that comes to its end has passed balanced texts, one for each bracket that was open. -/
theorem closingLength?_resumes {depth size : Nat} {mark : Option Char} {cs : List Char}
    (found : closingLength? (depth + 1) mark cs = some size) :
    ∃ inside later, cs = inside ++ ')' :: later ∧ size = inside.length + 1 ∧
      Resumes depth mark inside := by
  generalize brackets : depth + 1 = count at found
  fun_induction closingLength? count mark cs generalizing depth size with
  | case1 => simp at found
  | case2 => simp at found
  | case3 count mark c escape next later inductionHypothesis =>
      obtain rfl : c = '\\' := by simpa using escape
      obtain ⟨rest, inner, rfl⟩ := Option.map_eq_some_iff.mp found
      obtain ⟨inside, tail, rfl, rfl, resumes⟩ := inductionHypothesis brackets inner
      exact ⟨'\\' :: next :: inside, tail, rfl, by simp, resumes.escaped⟩
  | case4 count mark c rest noEscape closes inductionHypothesis =>
      obtain rfl : c = mark := by simpa using closes
      obtain ⟨size, inner, rfl⟩ := Option.map_eq_some_iff.mp found
      obtain ⟨inside, tail, rfl, rfl, resumes⟩ := inductionHypothesis brackets inner
      exact ⟨c :: inside, tail, rfl, rfl, [], inside, rfl, .nil, resumes⟩
  | case5 count mark c rest noEscape noMark inductionHypothesis =>
      obtain ⟨size, inner, rfl⟩ := Option.map_eq_some_iff.mp found
      obtain ⟨inside, tail, rfl, rfl, resumes⟩ := inductionHypothesis brackets inner
      exact ⟨c :: inside, tail, rfl, rfl,
        resumes.plain (by simpa using noEscape) (by simpa using noMark)⟩
  | case6 count c rest quote inductionHypothesis =>
      obtain ⟨size, inner, rfl⟩ := Option.map_eq_some_iff.mp found
      obtain ⟨inside, tail, rfl, rfl, resumes⟩ := inductionHypothesis brackets inner
      exact ⟨c :: inside, tail, rfl, rfl, resumes.quote quote⟩
  | case7 count c rest noQuote opens inductionHypothesis =>
      obtain rfl : c = '(' := by simpa using opens
      obtain ⟨size, inner, rfl⟩ := Option.map_eq_some_iff.mp found
      obtain ⟨inside, tail, rfl, rfl, unwinds⟩ :=
        inductionHypothesis (congrArg (· + 1) brackets) inner
      exact ⟨'(' :: inside, tail, rfl, rfl, unwinds.opening⟩
  | case8 count c rest noQuote noOpening closes last =>
      obtain rfl : c = ')' := by simpa using closes
      obtain rfl : depth = 0 := by omega
      exact ⟨[], rest, rfl, by simpa using found.symm, .nil⟩
  | case9 count c rest noQuote noOpening closes further inductionHypothesis =>
      obtain rfl : c = ')' := by simpa using closes
      obtain ⟨outer, rfl⟩ : ∃ outer, depth = outer + 1 := ⟨depth - 1, by omega⟩
      have fewer : outer + 1 = count - 1 := by omega
      obtain ⟨size, inner, rfl⟩ := Option.map_eq_some_iff.mp found
      obtain ⟨inside, tail, rfl, rfl, unwinds⟩ := inductionHypothesis fewer inner
      exact ⟨')' :: inside, tail, rfl, rfl, unwinds.closing⟩
  | case10 count c rest noQuote noOpening noClosing inductionHypothesis =>
      obtain ⟨size, inner, rfl⟩ := Option.map_eq_some_iff.mp found
      obtain ⟨inside, tail, rfl, rfl, unwinds⟩ := inductionHypothesis brackets inner
      have item (rest : List Char) (own : Balanced rest) : Balanced ([c] ++ rest) :=
        .plain (by simpa using noQuote) (by simpa using noOpening) (by simpa using noClosing) own
      exact ⟨c :: inside, tail, rfl, rfl, Unwinds.extend item unwinds⟩

/-- A bracketed text ends with the bracket that closes a balanced text, and only there. -/
theorem balancedLength?_eq_some {rest : List Char} {size : Nat} :
    balancedLength? ('(' :: rest) = some size ↔
      ∃ inside later, rest = inside ++ ')' :: later ∧ Balanced inside ∧
        size = inside.length + 2 := by
  constructor
  · intro found
    rw [balancedLength?_open] at found
    obtain ⟨inner, closes, rfl⟩ := Option.map_eq_some_iff.mp found
    obtain ⟨inside, later, rfl, rfl, balanced⟩ := closingLength?_resumes closes
    exact ⟨inside, later, rfl, balanced, rfl⟩
  · rintro ⟨inside, later, rfl, balanced, rfl⟩
    exact balancedLength?_balanced balanced later

/-- The place behind the bracket that closes the one at a place. -/
def closingPlace? (text : List Char) (start : Nat) : Option Nat :=
  (balancedLength? (text.drop start)).map (start + ·)

/-- From one place to another there is a balanced text in brackets. -/
structure Closes (text : List Char) (start stop : Nat) : Prop where
  beyond : start + 1 < stop
  bracket : text[stop - 1]? = some ')'
  balanced : Balanced (text.extract (start + 1) (stop - 1))

/-- From the place of a bracket on, the text begins with this bracket. -/
theorem drop_bracket {text : List Char} {start : Nat} (opening : text[start]? = some '(') :
    text.drop start = '(' :: text.drop (start + 1) := by
  obtain ⟨inside, is⟩ := List.getElem?_eq_some_iff.mp opening
  rw [List.drop_eq_getElem_cons inside, is]

/-- A bracket closes just behind the balanced text that it opens. -/
theorem closes_iff {text : List Char} {start stop : Nat} :
    Closes text start stop ↔ ∃ inside later, text.drop (start + 1) = inside ++ ')' :: later ∧
      Balanced inside ∧ stop = start + (inside.length + 2) := by
  constructor
  · rintro ⟨beyond, bracket, balanced⟩
    obtain ⟨within, is⟩ := List.getElem?_eq_some_iff.mp bracket
    obtain ⟨size, rfl⟩ : ∃ size, stop = start + (size + 2) := ⟨stop - start - 2, by omega⟩
    have place : start + (size + 2) - 1 = start + 1 + size := by omega
    simp only [place] at within is balanced
    refine ⟨text.extract (start + 1) (start + 1 + size), text.drop (start + 1 + size + 1), ?_,
      balanced, ?_⟩
    · have rest : (text.drop (start + 1)).drop size = ')' :: text.drop (start + 1 + size + 1) := by
        rw [List.drop_drop, List.drop_eq_getElem_cons within, is]
      rw [List.extract_eq_take_drop, Nat.add_sub_cancel_left, ← rest, List.take_append_drop]
    · simp only [List.extract_eq_take_drop, List.length_take, List.length_drop]
      omega
  · rintro ⟨inside, later, split, balanced, rfl⟩
    have place : start + (inside.length + 2) - 1 = start + 1 + inside.length := by omega
    refine ⟨by omega, ?_, ?_⟩
    · rw [place, ← List.getElem?_drop, split, List.getElem?_append_right (Nat.le_refl _)]
      simp
    · rw [place, List.extract_eq_take_drop, split, Nat.add_sub_cancel_left, List.take_left]
      exact balanced

/-- The scanner finds the place behind a bracket's own closing bracket, and no other. -/
theorem closingPlace?_eq_some {text : List Char} {start stop : Nat}
    (opening : text[start]? = some '(') :
    closingPlace? text start = some stop ↔ Closes text start stop := by
  rw [closingPlace?, drop_bracket opening, closes_iff, Option.map_eq_some_iff]
  simp only [balancedLength?_eq_some]
  constructor
  · rintro ⟨size, ⟨inside, later, split, balanced, rfl⟩, rfl⟩
    exact ⟨inside, later, split, balanced, rfl⟩
  · rintro ⟨inside, later, split, balanced, rfl⟩
    exact ⟨_, ⟨inside, later, split, balanced, rfl⟩, rfl⟩

section

variable {text : List Char} {place start stop : Nat}

/-- Behind a gap the arguments are what stands in the brackets, if these are closed. -/
theorem arguments?_place (behind : place ≤ start)
    (gap : ∀ c ∈ text.extract place start, isGap c = true) (opening : text[start]? = some '(') :
    arguments? (text.drop place) = (closingPlace? text start).map fun stop =>
      ⟨text.extract place start, text.extract (start + 1) (stop - 1)⟩ := by
  have joined : text.drop place = text.extract place start ++ text.drop start := by
    have rest : (text.drop place).drop (start - place) = text.drop start := by
      rw [List.drop_drop, Nat.add_sub_cancel' behind]
    rw [List.extract_eq_take_drop, ← rest, List.take_append_drop]
  have bracket := drop_bracket opening
  have own : (text.drop place).takeWhile isGap = text.extract place start := by
    rw [joined]
    exact takeWhile_stops gap (by simp [bracket, isGap])
  have rest : (text.drop place).drop (text.extract place start).length = text.drop start := by
    rw [joined, List.drop_left]
  simp only [arguments?, own, rest, closingPlace?, Option.map_map]
  rw [if_pos (by simp [bracket])]
  congr 1
  funext size
  have inside : start + size - 1 - (start + 1) = size - 2 := by omega
  simp [List.extract_eq_take_drop, inside]

/-- The gap, the brackets and the text between them reach up to the closing place. -/
theorem Closes.size (closes : Closes text start stop) (behind : place ≤ start) :
    place + Arguments.size ⟨text.extract place start, text.extract (start + 1) (stop - 1)⟩ =
      stop := by
  have beyond := closes.beyond
  have within := (List.getElem?_eq_some_iff.mp closes.bracket).1
  simp only [Arguments.size, List.extract_eq_take_drop, List.length_take, List.length_drop]
  omega

/-- A directive without arguments leaves what follows its name to the template. Only a block of code
begins there. -/
theorem knownDirective_none {name rest : List Char} (noArguments : arguments? rest = none)
    (noVerbatim : name ≠ "verbatim".toList) :
    knownDirective name rest =
      if name = "php".toList then
        .codeBlock (blockBody "@endphp" rest).1 (blockBody "@endphp" rest).2
      else .bare name := by
  simp only [knownDirective, noArguments, beq_iff_eq]
  rw [if_neg noVerbatim]

/-- A bracket is closed where a balanced text ends. There is one such place at most, and none is
found exactly if there is none. A directive has the text in the brackets for its arguments, and it
goes on behind them. It takes nothing if they are never closed. -/
theorem arguments_closing (opening : text[start]? = some '(') :
    (∀ stop, closingPlace? text start = some stop ↔ Closes text start stop) ∧
    (∀ stop other, Closes text start stop → Closes text start other → stop = other) ∧
    (closingPlace? text start = none ↔ ∀ stop, ¬ Closes text start stop) ∧
    ∀ place ≤ start, (∀ c ∈ text.extract place start, isGap c = true) →
      (∀ stop, Closes text start stop → ∃ arguments,
        arguments? (text.drop place) = some arguments ∧
        arguments.inside = text.extract (start + 1) (stop - 1) ∧
        place + arguments.size = stop) ∧
      ((∀ stop, ¬ Closes text start stop) → arguments? (text.drop place) = none ∧
        ∀ name, name ≠ "verbatim".toList → name ≠ "php".toList →
          knownDirective name (text.drop place) = .bare name) := by
  have found (stop : Nat) : closingPlace? text start = some stop ↔ Closes text start stop :=
    closingPlace?_eq_some opening
  have absent : closingPlace? text start = none ↔ ∀ stop, ¬ Closes text start stop := by
    simp only [← found]
    exact Option.eq_none_iff_forall_ne_some
  refine ⟨found, ?_, absent, ?_⟩
  · intro stop other closes closesToo
    exact Option.some.inj (((found stop).mpr closes).symm.trans ((found other).mpr closesToo))
  · intro place behind gap
    have taken := arguments?_place behind gap opening
    constructor
    · intro stop closes
      rw [(found stop).mpr closes] at taken
      exact ⟨_, taken, rfl, closes.size behind⟩
    · intro unterminated
      rw [absent.mpr unterminated] at taken
      refine ⟨taken, fun name noVerbatim noCode => ?_⟩
      rw [knownDirective_none taken noVerbatim, if_neg noCode]

/-- Brackets in quotations do not count, be they escaped or of the other kind. -/
def quotedBrackets : List Char := "@if (f(\"\\\")'\", ')'), x) y)".toList

/-- The brackets in the quotations are passed over. -/
theorem arguments_closing_quoted :
    quotedBrackets[4]? = some '(' ∧ Closes quotedBrackets 4 23 ∧ ∃ arguments,
      arguments? (quotedBrackets.drop 3) = some arguments ∧
      arguments.inside = "f(\"\\\")'\", ')'), x".toList ∧ 3 + arguments.size = 23 := by
  have opening : quotedBrackets[4]? = some '(' := by decide +kernel
  have blank : ∀ c ∈ quotedBrackets.extract 3 4, isGap c = true :=
    List.all_eq_true.mp (by decide +kernel)
  have text : quotedBrackets.extract 5 22 = "f(\"\\\")'\", ')'), x".toList := by decide +kernel
  obtain ⟨found, -, -, takes⟩ := arguments_closing opening
  have closes : Closes quotedBrackets 4 23 := (found 23).mp (by decide +kernel)
  obtain ⟨arguments, taken, inside, size⟩ := (takes 3 (by decide) blank).1 23 closes
  exact ⟨opening, closes, arguments, taken, inside.trans text, size⟩

end

end Untranslated.Blade
