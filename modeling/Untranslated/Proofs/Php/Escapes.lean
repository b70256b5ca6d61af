/-
This file tells which static expressions cannot be evaluated for an oversized escape.
-/

import Untranslated.Proofs.Php.Outline
import Untranslated.Proofs.Results

namespace Untranslated.Php

namespace Literal

/-- No code point has such a number. -/
inductive Oversized : Nat → EscapeError → Prop where
  | beyondUnicode {n : Nat} (great : 0x110000 ≤ n) (fits : n ≤ integerLimit) :
      Oversized n .beyondUnicode
  | beyondInteger {n : Nat} (great : integerLimit < n) : Oversized n .beyondInteger

/-- A number fails as a code point just when it is too great. -/
theorem codePoint_eq_error {n : Nat} {e : EscapeError} :
    codePoint n = .error e ↔ Oversized n e := by
  have limit : integerLimit = 0x7FFFFFFF := rfl
  unfold codePoint CodePoint.ofNat?
  by_cases inRange : n < 0x110000
  · simp only [dif_pos inRange, reduceCtorEq, false_iff]
    rintro (⟨great, -⟩ | great) <;> omega
  · simp only [dif_neg inRange, Except.error.injEq]
    by_cases fits : n ≤ integerLimit
    · rw [if_pos fits]
      constructor
      · rintro rfl
        exact .beyondUnicode (Nat.le_of_not_lt inRange) fits
      · rintro (_ | great)
        · rfl
        · omega
    · rw [if_neg fits]
      constructor
      · rintro rfl
        exact .beyondInteger (Nat.lt_of_not_le fits)
      · rintro (⟨-, fits⟩ | _)
        · omega
        · rfl

/-- An escape of a body names too great a number, and none before it does. -/
def HasOversized (body : Text) (e : EscapeError) : Prop :=
  ∃ before digits after, pieces body = before ++ .point digits :: after ∧
    (∀ earlier, .point earlier ∈ before → number 16 earlier < 0x110000) ∧
    Oversized (number 16 digits) e

/-- A piece fails just when it is an escape by a number that is too great. -/
theorem value_eq_error {escapesQuote : Bool} {piece : Piece} {e : EscapeError} :
    piece.value escapesQuote = .error e ↔
      ∃ digits, piece = .point digits ∧ Oversized (number 16 digits) e := by
  cases piece with
  | point digits => simp [Piece.value, codePoint_eq_error]
  | simple letter value =>
      simp only [Piece.value]
      split <;> simp
  | _ => simp [Piece.value]

/-- A piece has a value just when it is no escape by a number that is too great. -/
theorem value_eq_ok {escapesQuote : Bool} {piece : Piece} :
    (∃ shown, piece.value escapesQuote = .ok shown) ↔
      ∀ digits, piece = .point digits → number 16 digits < 0x110000 := by
  cases piece with
  | point digits =>
      simp only [Piece.value, codePoint, CodePoint.ofNat?, Piece.point.injEq, forall_eq']
      by_cases inRange : number 16 digits < 0x110000 <;> simp [inRange]
  | simple letter value =>
      simp only [Piece.value]
      split <;> simp
  | _ => simp [Piece.value]

/-- A body fails for the first oversized escape in it, whether or not quotes are escaped. -/
theorem unescapeDouble_eq_error {escapesQuote : Bool} {body : Text} {e : EscapeError} :
    unescapeDouble escapesQuote body = .error e ↔ HasOversized body e := by
  rw [unescapeDouble, map_eq_error, mapM_eq_error]
  simp only [FailsFirst, value_eq_error, value_eq_ok]
  constructor
  · rintro ⟨before, piece, after, joined, sound, digits, rfl, oversized⟩
    exact ⟨before, digits, after, joined, fun earlier member => sound _ member earlier rfl,
      oversized⟩
  · rintro ⟨before, digits, after, joined, sound, oversized⟩
    refine ⟨before, _, after, joined, ?_, digits, rfl, oversized⟩
    rintro _ member earlier rfl
    exact sound earlier member

/-- The first oversized escape of a static expression is in one of its literals. A concatenation is
evaluated from the left, and only while its sides are static. -/
inductive FailsIn (source : List Char) : Node → EscapeError → Prop where
  | bracketed {node inner : Node} {e : EscapeError} (is : node.kind = .parenthesized)
      (single : node.parts = [inner]) (inside : FailsIn source inner e) : FailsIn source node e
  | left {node first second : Node} {e : EscapeError} (is : node.kind = .binary)
      (concatenates : isConcatenation node = true) (left : node.child? .left = some first)
      (right : node.child? .right = some second) (inside : FailsIn source first e) :
      FailsIn source node e
  | right {node first second : Node} {before : Text} {e : EscapeError} (is : node.kind = .binary)
      (concatenates : isConcatenation node = true) (left : node.child? .left = some first)
      (right : node.child? .right = some second)
      (static : value? source first = .ok (some before)) (inside : FailsIn source second e) :
      FailsIn source node e
  | doubleQuoted {node : Node} {e : EscapeError} (is : node.kind = .doubleQuoted)
      (oversized : HasOversized (betweenQuotes (node.text source)) e) : FailsIn source node e
  | heredoc {node : Node} {body : Text} {e : EscapeError} (is : node.kind = .heredoc)
      (document : documentBody? (node.text source) = some body)
      (oversized : HasOversized body e) : FailsIn source node e

section

variable {source : List Char} {node : Node} {e : EscapeError}

/-- Two readings in a row fail with the first, or with the second behind a static first. -/
theorem joined_eq_error {first second : Except EscapeError (Option Text)} :
    joined first second = .error e ↔
      first = .error e ∨ ∃ before, first = .ok (some before) ∧ second = .error e := by
  cases first with
  | error own => simp [joined, bind, Except.bind]
  | ok before =>
      cases before with
      | none => simp [joined, bind, Except.bind, pure, Except.pure]
      | some before => cases second <;> simp [joined, bind, Except.bind, pure, Except.pure]

/-- An expression with an oversized escape has no value. -/
theorem FailsIn.error (fails : FailsIn source node e) : value? source node = .error e := by
  induction fails with
  | bracketed is single inside inductionHypothesis =>
      rw [value?_parenthesized source is, single]
      exact inductionHypothesis
  | left is concatenates left right inside inductionHypothesis =>
      rw [value?_binary source is, concatenates, left, right]
      exact joined_eq_error.mpr (.inl inductionHypothesis)
  | right is concatenates left right static inside inductionHypothesis =>
      rw [value?_binary source is, concatenates, left, right]
      exact joined_eq_error.mpr (.inr ⟨_, static, inductionHypothesis⟩)
  | doubleQuoted is oversized =>
      simp only [value?, is]
      rw [map_eq_error, unescapeDouble_eq_error]
      exact oversized
  | heredoc is document oversized =>
      simp only [value?, is, document]
      rw [map_eq_error, unescapeDouble_eq_error]
      exact oversized

/-- An expression without a value has an oversized escape. -/
theorem failsIn_of_error (failed : value? source node = .error e) : FailsIn source node e := by
  induction node using Node.bySize with
  | step node inductionHypothesis =>
      cases is : node.kind with
      | parenthesized =>
          rw [value?_parenthesized source is] at failed
          split at failed
          · next inner single =>
            have smaller : inner.size < node.size := Node.sizeOfPart (by simp [single])
            exact .bracketed is single (inductionHypothesis _ smaller failed)
          · cases failed
      | binary =>
          rw [value?_binary source is] at failed
          split at failed
          · next concatenates own other =>
            obtain ⟨left, foundLeft, rfl⟩ := Option.map_eq_some_iff.mp own
            obtain ⟨right, foundRight, rfl⟩ := Option.map_eq_some_iff.mp other
            rcases joined_eq_error.mp failed with failed | ⟨before, static, failed⟩
            · exact .left is concatenates foundLeft foundRight
                (inductionHypothesis _ (Node.sizeOfChild foundLeft) failed)
            · exact .right is concatenates foundLeft foundRight static
                (inductionHypothesis _ (Node.sizeOfChild foundRight) failed)
          · cases failed
      | doubleQuoted =>
          simp only [value?, is] at failed
          rw [map_eq_error, unescapeDouble_eq_error] at failed
          exact .doubleQuoted is failed
      | heredoc =>
          simp only [value?, is] at failed
          split at failed
          · cases failed
          · next body document =>
            rw [map_eq_error, unescapeDouble_eq_error] at failed
            exact .heredoc is document failed
      | _ => simp [value?, is] at failed

/-- An expression fails just when its first oversized escape says so. -/
theorem value?_eq_error : value? source node = .error e ↔ FailsIn source node e :=
  ⟨failsIn_of_error, FailsIn.error⟩

/-- A spread has no value that could fail. -/
theorem FailsIn.notSpread (fails : FailsIn source node e) : node.kind ≠ .spread := by
  cases fails <;> simp [*]

/-- A literal with an oversized escape. -/
inductive OversizedLiteral (source : List Char) (literal : Node) (e : EscapeError) : Prop where
  | doubleQuoted (is : literal.kind = .doubleQuoted)
      (oversized : HasOversized (betweenQuotes (literal.text source)) e) :
      OversizedLiteral source literal e
  | heredoc {body : Text} (is : literal.kind = .heredoc)
      (document : documentBody? (literal.text source) = some body)
      (oversized : HasOversized body e) : OversizedLiteral source literal e

/-- An expression fails for one of the literals in it. -/
theorem FailsIn.literal (fails : FailsIn source node e) :
    ∃ literal ∈ node.preorder, OversizedLiteral source literal e := by
  induction fails with
  | bracketed is single inside inductionHypothesis =>
      obtain ⟨literal, within, oversized⟩ := inductionHypothesis
      exact ⟨literal, Node.mem_preorder_of_single single within, oversized⟩
  | left is concatenates left right inside inductionHypothesis =>
      obtain ⟨literal, within, oversized⟩ := inductionHypothesis
      exact ⟨literal, Node.mem_preorder_of_found left within, oversized⟩
  | right is concatenates left right static inside inductionHypothesis =>
      obtain ⟨literal, within, oversized⟩ := inductionHypothesis
      exact ⟨literal, Node.mem_preorder_of_found right within, oversized⟩
  | @doubleQuoted node e is oversized =>
      exact ⟨node, node.self_mem_preorder, .doubleQuoted is oversized⟩
  | @heredoc node body e is document oversized =>
      exact ⟨node, node.self_mem_preorder, .heredoc is document oversized⟩

end

end Literal

end Untranslated.Php
