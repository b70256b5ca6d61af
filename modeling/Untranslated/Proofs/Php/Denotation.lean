/-
This file tells by their characters which string expressions are static and what they stand for.
-/

import Untranslated.Proofs.Php.Escapes
import Untranslated.Proofs.Php.Quotations

namespace Untranslated.Php

open Literal

/-- What a static expression stands for. The text of a literal is decoded, brackets do not count,
and what is concatenated stands in a row. A text with an interpolation stands for nothing. -/
inductive Denotes (source : List Char) : Node → Text → Prop where
  | singleQuoted {node : Node} {letter body : List Char} (is : node.kind = .singleQuoted)
      (isLetter : IsLetter letter)
      (spelled : slice source node.start node.stop = letter ++ '\'' :: (body ++ ['\''])) :
      Denotes source node (unescapeSingle (Text.ofChars body))
  | doubleQuoted {node : Node} {letter body : List Char} {value : Text}
      (is : node.kind = .doubleQuoted ∨ node.kind = .template) (isLetter : IsLetter letter)
      (spelled : slice source node.start node.stop = letter ++ '"' :: (body ++ ['"']))
      (plain : interpolated (slice source node.start node.stop) = false)
      (decodes : unescapeDouble true (Text.ofChars body) = .ok value) : Denotes source node value
  | nowdoc {node : Node} {value : Text} (is : node.kind = .nowdoc)
      (document : documentBody? (node.text source) = some value) : Denotes source node value
  | heredoc {node : Node} {body value : Text} (is : node.kind = .heredoc ∨ node.kind = .template)
      (document : documentBody? (node.text source) = some body)
      (plain : interpolated (slice source node.start node.stop) = false)
      (decodes : unescapeDouble false body = .ok value) : Denotes source node value
  | bracketed {node inner : Node} {value : Text} (is : node.kind = .parenthesized)
      (single : node.parts = [inner]) (inside : Denotes source inner value) :
      Denotes source node value
  | joined {node operator left right : Node} {before after : Text} (is : node.kind = .binary)
      (mark : node.child? .operator = some operator) (point : operator.spelling = ".")
      (first : node.child? .left = some left) (second : node.child? .right = some right)
      (leftwards : Denotes source left before) (rightwards : Denotes source right after) :
      Denotes source node (before ++ after)

section

variable {source : List Char} {node : Node} {value : Text}

/-- What stands between two quotation marks, behind a letter or none. -/
theorem betweenQuotes_spelled {letter body : List Char} (isLetter : IsLetter letter) {mark : Char}
    (quote : mark = '\'' ∨ mark = '"') (spelled : slice source node.start node.stop =
      letter ++ mark :: (body ++ [mark])) :
    betweenQuotes (node.text source) = Text.ofChars body := by
  have text : node.text source = Text.ofChars letter ++ .ofChar mark ::
      (Text.ofChars body ++ [.ofChar mark]) := by
    rw [Node.text, spelled]
    simp [Text.ofChars]
  rw [text]
  have behind : withoutLetter (Text.ofChars letter ++ .ofChar mark ::
      (Text.ofChars body ++ [.ofChar mark])) =
        .ofChar mark :: (Text.ofChars body ++ [.ofChar mark]) := by
    rcases isLetter with rfl | rfl | rfl <;> rcases quote with rfl | rfl <;> rfl
  rw [betweenQuotes, behind, List.drop_succ_cons, List.drop_zero, List.dropLast_concat]

/-- Two readings are joined to a value just when both are static. -/
theorem joined_eq_ok {first second : Except EscapeError (Option Text)} :
    joined first second = .ok (some value) ↔ ∃ before after,
      first = .ok (some before) ∧ second = .ok (some after) ∧ before ++ after = value := by
  rcases first with e | _ | before <;> rcases second with e' | _ | after <;>
    simp [joined, bind, Except.bind, pure, Except.pure]

/-- A literal has a value just when it can be decoded. -/
theorem map_some_eq_ok {result : Except EscapeError Text} :
    result.map some = .ok (some value) ↔ result = .ok value := by
  cases result <;> simp [Except.map]

/-- The value of an expression is what it stands for. -/
theorem value?_of_denotes (denotes : Denotes source node value)
    (spelled : ∀ inner ∈ node.preorder, Spelled source inner) :
    value? source node = .ok (some value) := by
  -- A template has an interpolation, whatever else its text is like.
  have literal {node : Node} {kind : Kind} (is : node.kind = kind ∨ node.kind = .template)
      (plain : interpolated (slice source node.start node.stop) = false)
      (spelled : ∀ inner ∈ node.preorder, Spelled source inner) : node.kind = kind := by
    refine is.resolve_right fun template => ?_
    rw [(spelled node node.self_mem_preorder).template template] at plain
    cases plain
  induction denotes with
  | @singleQuoted node letter body is isLetter text =>
      simp only [value?, is, betweenQuotes_spelled isLetter (.inl rfl) text]
  | @doubleQuoted node letter body value is isLetter text plain decodes =>
      simp only [value?, literal is plain spelled,
        betweenQuotes_spelled isLetter (.inr rfl) text, map_some_eq_ok.mpr decodes]
  | nowdoc is document => simp only [value?, is, document]
  | heredoc is document plain decodes =>
      simp only [value?, literal is plain spelled, document, map_some_eq_ok.mpr decodes]
  | bracketed is single inside inductionHypothesis =>
      rw [value?_parenthesized source is, single]
      exact inductionHypothesis fun inner within =>
        spelled inner (Node.mem_preorder_of_single single within)
  | @joined node operator first second before after is mark point left right _ _ before' after' =>
      have concatenates : isConcatenation node = true := by
        rw [isConcatenation, mark, Option.any_some, point]
        rfl
      have within {role : Role} {child : Node} (found : node.child? role = some child) :
          ∀ inner ∈ child.preorder, Spelled source inner :=
        fun inner within => spelled inner (Node.mem_preorder_of_found found within)
      rw [value?_binary source is, concatenates, left, right]
      exact joined_eq_ok.mpr ⟨_, _, before' (within left), after' (within right), rfl⟩

/-- An expression stands for the value that is read from it. -/
theorem denotes_of_value (told : value? source node = .ok (some value))
    (spelled : ∀ inner ∈ node.preorder, Spelled source inner) : Denotes source node value := by
  induction node using Node.bySize generalizing value with
  | step node inductionHypothesis =>
      have own := spelled node node.self_mem_preorder
      cases is : node.kind with
      | parenthesized =>
          rw [value?_parenthesized source is] at told
          split at told
          · next inner single =>
            have smaller : inner.size < node.size := Node.sizeOfPart (by simp [single])
            exact .bracketed is single (inductionHypothesis _ smaller told
              fun inner within => spelled inner (Node.mem_preorder_of_single single within))
          · cases told
      | binary =>
          rw [value?_binary source is] at told
          split at told
          · next concatenates left right =>
            obtain ⟨first, foundFirst, rfl⟩ := Option.map_eq_some_iff.mp left
            obtain ⟨second, foundSecond, rfl⟩ := Option.map_eq_some_iff.mp right
            obtain ⟨before, after, leftwards, rightwards, rfl⟩ := joined_eq_ok.mp told
            obtain ⟨operator, mark, point⟩ := (Option.any_eq_true _ _).mp concatenates
            exact .joined is mark (eq_of_beq point) foundFirst foundSecond
              (inductionHypothesis _ (Node.sizeOfChild foundFirst) leftwards
                fun inner within => spelled inner (Node.mem_preorder_of_found foundFirst within))
              (inductionHypothesis _ (Node.sizeOfChild foundSecond) rightwards
                fun inner within => spelled inner (Node.mem_preorder_of_found foundSecond within))
          · cases told
      | singleQuoted =>
          obtain ⟨letter, body, isLetter, text⟩ := own.singleQuoted is
          simp only [value?, is, betweenQuotes_spelled isLetter (.inl rfl) text] at told
          cases told
          exact .singleQuoted is isLetter text
      | doubleQuoted =>
          obtain ⟨letter, body, isLetter, text, plain⟩ := own.doubleQuoted is
          simp only [value?, is, betweenQuotes_spelled isLetter (.inr rfl) text] at told
          exact .doubleQuoted (.inl is) isLetter text plain (map_some_eq_ok.mp told)
      | nowdoc =>
          simp only [value?, is, Except.ok.injEq] at told
          exact .nowdoc is told
      | heredoc =>
          simp only [value?, is] at told
          split at told
          · cases told
          · next body document =>
            exact .heredoc (.inl is) document (own.heredoc is) (map_some_eq_ok.mp told)
      | _ => simp [value?, is] at told

/-- In a program an expression has a value just if it is static. -/
theorem value?_eq_some (spelled : ∀ inner ∈ node.preorder, Spelled source inner) :
    value? source node = .ok (some value) ↔ Denotes source node value :=
  ⟨fun told => denotes_of_value told spelled, fun denotes => value?_of_denotes denotes spelled⟩

/-- What an expression stands for depends on the texts of its nodes alone. -/
theorem Denotes.congr (denotes : Denotes source node value) {other : List Char}
    (same : ∀ inner ∈ node.preorder, slice source inner.start inner.stop =
      slice other inner.start inner.stop) : Denotes other node value := by
  induction denotes with
  | @singleQuoted node letter body is isLetter text =>
      exact .singleQuoted is isLetter (same node node.self_mem_preorder ▸ text)
  | @doubleQuoted node letter body value is isLetter text plain decodes =>
      have own := same node node.self_mem_preorder
      exact .doubleQuoted is isLetter (own ▸ text) (own ▸ plain) decodes
  | @nowdoc node value is document =>
      rw [Node.text, same node node.self_mem_preorder] at document
      exact .nowdoc is document
  | @heredoc node body value is document plain decodes =>
      have own := same node node.self_mem_preorder
      rw [Node.text, own] at document
      exact .heredoc is document (own ▸ plain) decodes
  | bracketed is single inside inductionHypothesis =>
      exact .bracketed is single (inductionHypothesis fun inner within =>
        same inner (Node.mem_preorder_of_single single within))
  | joined is mark point left right _ _ before after =>
      exact .joined is mark point left right
        (before fun inner within => same inner (Node.mem_preorder_of_found left within))
        (after fun inner within => same inner (Node.mem_preorder_of_found right within))

end

end Untranslated.Php
