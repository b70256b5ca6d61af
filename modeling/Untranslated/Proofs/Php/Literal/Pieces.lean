/-
This file proves how a body divides into pieces.
A piece is settled by the characters up to its end, and no escape goes on beyond a backslash.
-/

import Mathlib.Data.List.Induction
import Mathlib.Data.Nat.Digits.Defs
import Untranslated.Php.Literal.Escape

namespace Untranslated.Php.Literal

@[simp] theorem is_ofChar (c d : Char) : (CodePoint.ofChar c).is d = decide (c = d) := by
  rw [Bool.eq_iff_iff, decide_eq_true_eq, ← Char.toNat_inj]
  exact beq_iff_eq

/-- A code point is a character just when it is the one of it. -/
theorem is_iff {c : CodePoint} {d : Char} : c.is d = true ↔ c = .ofChar d := by
  constructor
  · intro is
    cases c
    simp only [CodePoint.is, beq_iff_eq] at is
    subst is
    rfl
  · rintro rfl
    simp

/-- A character of a class is none that is outside of it. -/
theorem is_other {test : CodePoint → Bool} {c : CodePoint} {d : Char} (own : test c = true)
    (other : test (.ofChar d) = false) : c.is d = false := by
  cases is : c.is d with
  | false => rfl
  | true =>
      rw [is_iff.mp is, other] at own
      cases own

/-- The character that begins an escape. -/
def backslash : CodePoint := .ofChar '\\'

/-- A further digit multiplies the number by the base. -/
theorem number_append (base : Nat) (digits : Text) (last : CodePoint) :
    number base (digits ++ [last]) = base * number base digits + (digitValue? last).getD 0 := by
  rw [number, List.foldl_append]
  rfl

/-- The number of digits has their values as its digits, the most significant one first. -/
theorem number_eq (base : Nat) (digits : Text) :
    number base digits =
      Nat.ofDigits base (digits.map fun c => (digitValue? c).getD 0).reverse := by
  induction digits using List.reverseRecOn with
  | nil => rfl
  | append_singleton digits last inductionHypothesis =>
      rw [number_append, inductionHypothesis, List.map_append, List.reverse_append]
      simp [Nat.ofDigits_cons, Nat.add_comm]

/-- Characters that belong to a piece already are left out. -/
theorem piecesAfter_eq (skipped : Nat) (body : Text) :
    piecesAfter skipped body = pieces (body.drop skipped) := by
  induction body generalizing skipped with
  | nil => cases skipped <;> rfl
  | cons c rest inductionHypothesis =>
      cases skipped with
      | zero => rfl
      | succ skipped => exact inductionHypothesis skipped

theorem size_positive (piece : Piece) : 0 < piece.size := by
  cases piece <;> simp only [Piece.size] <;> omega

@[simp] theorem pieces_nil : pieces [] = [] := rfl

/-- The pieces of a body are its first one and those of what is left after it. -/
theorem pieces_cons (c : CodePoint) (rest : Text) :
    pieces (c :: rest) = pieceAt c rest :: pieces (rest.drop ((pieceAt c rest).size - 1)) := by
  rw [← piecesAfter_eq]
  rfl

/-- A row of characters that is a piece, whatever follows, is the next piece. -/
theorem pieces_unit {c : CodePoint} (unit : Text) {rest : Text} {piece : Piece}
    (is : pieceAt c (unit ++ rest) = piece) (size : piece.size = unit.length + 1) :
    pieces (c :: (unit ++ rest)) = piece :: pieces rest := by
  rw [pieces_cons, is, size, Nat.add_sub_cancel, List.drop_left]

/-- Other characters than a backslash are pieces of their own. -/
theorem pieceAt_plain {c : CodePoint} (plain : c ≠ backslash) (rest : Text) :
    pieceAt c rest = .plain c := by
  have other : c.is '\\' = false := by
    rw [← Bool.not_eq_true, is_iff]
    exact plain
  rw [pieceAt, other]
  rfl

/-- A backslash begins an escape, or it is a piece of its own. -/
theorem pieceAt_backslash (rest : Text) :
    pieceAt backslash rest = (escape? rest).getD (.plain backslash) := by
  have begins : backslash.is '\\' = true := is_iff.mpr rfl
  rw [pieceAt, begins]
  rfl

/-- Other characters than a backslash are read one by one. -/
theorem pieces_plain {c : CodePoint} (plain : c ≠ backslash) (rest : Text) :
    pieces (c :: rest) = .plain c :: pieces rest :=
  pieces_unit [] (pieceAt_plain plain rest) rfl

/-- A run of characters of a class ends where another character follows. -/
theorem takeWhile_append_stop {test : CodePoint → Bool} {stop : CodePoint} (ends : test stop = false)
    (front rest : Text) : (front ++ stop :: rest).takeWhile test = front.takeWhile test := by
  induction front with
  | nil => simp [ends]
  | cons c front inductionHypothesis =>
      rw [List.cons_append, List.takeWhile_cons, List.takeWhile_cons, inductionHypothesis]

theorem isOctalDigit_backslash : isOctalDigit backslash = false := rfl

theorem isHexDigit_backslash : isHexDigit backslash = false := rfl

/-- The digits of an escape between braces. -/
def pointDigits (rest : Text) : Text := (rest.drop 1).takeWhile isHexDigit

/-- Whether digits between braces follow. -/
def bracesDigits (rest : Text) : Bool :=
  rest.head?.any (·.is '\x7b') && (!(pointDigits rest).isEmpty &&
    (rest.drop (1 + (pointDigits rest).length)).head?.any (·.is '\x7d'))

/-- The character behind a backslash tells the escape. -/
theorem escape?_cons (c : CodePoint) (rest : Text) : escape? (c :: rest) =
    match simpleEscape? c with
    | some value => some (.simple c value)
    | none =>
      if isOctalDigit c then some (.octal (((c :: rest).takeWhile isOctalDigit).take 3))
      else if c.is 'x' then
        match (rest.takeWhile isHexDigit).take 2 with
        | [] => none
        | digits => some (.hex digits)
      else if c.is 'u' && bracesDigits rest then some (.point (pointDigits rest))
      else none := by
  rw [escape?, bracesDigits, pointDigits]
  cases c.is 'u' <;> cases rest.head?.any (·.is '\x7b') <;> rfl

/-- Digits with a brace on each side. -/
theorem bracesDigits_written {digits : Text} (filled : digits ≠ [])
    (all : ∀ c ∈ digits, isHexDigit c = true) (rest : Text) :
    pointDigits (.ofChar '\x7b' :: (digits ++ .ofChar '\x7d' :: rest)) = digits ∧
      bracesDigits (.ofChar '\x7b' :: (digits ++ .ofChar '\x7d' :: rest)) = true := by
  have closes : isHexDigit (.ofChar '\x7d') = false := rfl
  have taken : pointDigits (.ofChar '\x7b' :: (digits ++ .ofChar '\x7d' :: rest)) = digits := by
    rw [pointDigits, List.drop_succ_cons, List.drop_zero, List.takeWhile_append_of_pos all,
      List.takeWhile_cons_of_neg (by rw [closes]; decide), List.append_nil]
  refine ⟨taken, ?_⟩
  rw [bracesDigits, taken, Nat.add_comm 1, List.drop_succ_cons, List.drop_left]
  simp [filled]

/-- The digits between braces end before a backslash. -/
theorem bracesDigits_append (front rest : Text) :
    bracesDigits (front ++ backslash :: rest) = bracesDigits front ∧
      (bracesDigits front = true →
        pointDigits (front ++ backslash :: rest) = pointDigits front) := by
  have opens : backslash.is '\x7b' = false := rfl
  have closes : backslash.is '\x7d' = false := rfl
  cases front with
  | nil => simp [bracesDigits, opens]
  | cons c front =>
      have digits : pointDigits (c :: front ++ backslash :: rest) = pointDigits (c :: front) := by
        simp only [pointDigits, List.cons_append, List.drop_succ_cons, List.drop_zero]
        exact takeWhile_append_stop isHexDigit_backslash front rest
      refine ⟨?_, fun _ => digits⟩
      -- Behind the digits comes the same character, or the backslash where there was none.
      have inside : (pointDigits (c :: front)).length ≤ front.length :=
        (List.takeWhile_prefix _).length_le
      have next : ((c :: front ++ backslash :: rest).drop
          (1 + (pointDigits (c :: front)).length)).head?.any (·.is '\x7d') =
            ((c :: front).drop (1 + (pointDigits (c :: front)).length)).head?.any (·.is '\x7d') := by
        rw [List.drop_append_of_le_length (by rw [List.length_cons]; omega)]
        cases (c :: front).drop (1 + (pointDigits (c :: front)).length) with
        | nil => simp [closes]
        | cons d others => rfl
      rw [bracesDigits, bracesDigits, digits, next]
      rfl

/-- An escape ends before the next backslash, save that it may be an escaped backslash itself. -/
theorem escape?_append {front : Text} (filled : front ≠ []) (rest : Text) :
    escape? (front ++ backslash :: rest) = escape? front := by
  obtain ⟨c, front, rfl⟩ := List.exists_cons_of_ne_nil filled
  obtain ⟨braces, digits⟩ := bracesDigits_append front rest
  rw [List.cons_append, escape?_cons, escape?_cons, ← List.cons_append,
    takeWhile_append_stop isOctalDigit_backslash, takeWhile_append_stop isHexDigit_backslash, braces]
  cases has : bracesDigits front with
  | false => simp only [Bool.and_false, Bool.false_eq_true, if_false]
  | true => rw [digits has]

/-- An escape lies within the text behind its backslash. -/
theorem escape?_fits {text : Text} {piece : Piece} (found : escape? text = some piece) :
    piece.size ≤ text.length + 1 := by
  cases text with
  | nil => cases found
  | cons c rest =>
      have taken (test : CodePoint → Bool) (text : Text) :
          (text.takeWhile test).length ≤ text.length := (List.takeWhile_prefix _).length_le
      have octal := taken isOctalDigit (c :: rest)
      have hex := taken isHexDigit rest
      rw [escape?_cons] at found
      split at found
      · cases found
        simp [Piece.size]
      · split at found
        · cases found
          simp only [Piece.size, List.length_take, List.length_cons] at octal ⊢
          omega
        · split at found
          · split at found
            · cases found
            · cases found
              simp only [Piece.size, List.length_take, List.length_cons]
              omega
          · split at found
            · next braces =>
              cases found
              -- The closing brace stands behind the digits.
              have closed := (Bool.and_eq_true_iff.mp (Bool.and_eq_true_iff.mp
                (Bool.and_eq_true_iff.mp braces).2).2).2
              have long : 1 + (pointDigits rest).length < rest.length := by
                refine Nat.lt_of_not_le fun short => ?_
                rw [List.drop_eq_nil_of_le short] at closed
                cases closed
              simp only [Piece.size, List.length_cons]
              omega
            · cases found

/-- A piece is part of the body. -/
theorem pieceAt_fits (c : CodePoint) (rest : Text) : (pieceAt c rest).size ≤ rest.length + 1 := by
  by_cases begins : c = backslash
  · subst begins
    rw [pieceAt_backslash]
    cases found : escape? rest with
    | none => simp [Piece.size]
    | some piece => exact escape?_fits found
  · rw [pieceAt_plain begins]
    simp [Piece.size]

/-- The scan of a body comes to its end with a backslash that begins no escape. It would take the
next character with it. -/
def EndsOpen (body : Text) : Prop := (pieces body).getLast? = some (.plain backslash)

/-- A piece ends before a further backslash. -/
theorem pieceAt_append {c : CodePoint} {front : Text} (settled : c = backslash → front ≠ [])
    (rest : Text) : pieceAt c (front ++ backslash :: rest) = pieceAt c front := by
  by_cases begins : c = backslash
  · subst begins
    rw [pieceAt_backslash, pieceAt_backslash, escape?_append (settled rfl)]
  · rw [pieceAt_plain begins, pieceAt_plain begins]

/-- A body is divided as before if a backslash follows, unless it ends in an open one. -/
theorem pieces_append {front : Text} (closed : ¬EndsOpen front) (rest : Text) :
    pieces (front ++ backslash :: rest) = pieces front ++ pieces (backslash :: rest) := by
  induction length : front.length using Nat.strongRecOn generalizing front with
  | ind bound inductionHypothesis =>
  subst length
  cases front with
  | nil => rfl
  | cons c front =>
      have settled : c = backslash → front ≠ [] := by
        rintro rfl rfl
        exact closed rfl
      have fits := pieceAt_fits c front
      have positive := size_positive (pieceAt c front)
      have shorter : (front.drop ((pieceAt c front).size - 1)).length < (c :: front).length := by
        rw [List.length_drop, List.length_cons]
        omega
      have closed' : ¬EndsOpen (front.drop ((pieceAt c front).size - 1)) := by
        intro isOpen
        refine closed ?_
        rw [EndsOpen, pieces_cons, List.getLast?_cons, show _ = _ from isOpen]
        rfl
      rw [List.cons_append, pieces_cons, pieces_cons c front, pieceAt_append settled,
        List.drop_append_of_le_length (by omega), inductionHypothesis _ shorter closed' rfl]
      rfl

end Untranslated.Php.Literal
