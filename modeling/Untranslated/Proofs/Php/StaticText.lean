/-
This file proves that the value of a static text does not depend on where the text stands.
-/

import Untranslated.Proofs.Php.Grammar.Static
import Untranslated.Proofs.Php.Lexer.Static
import Untranslated.Proofs.Php.Placing

namespace Untranslated.Php

open Literal (value?)

/-- The first so many tokens of two rows have the same texts. No template text stands in front of
them. -/
inductive Twins (source other : List Char) : Nat → List Token → List Token → Prop where
  | rest (tokens tokens' : List Token) : Twins source other 0 tokens tokens'
  | token {count : Nat} {token token' : Token} {tokens tokens' : List Token}
      (text : slice source token.start token.stop = slice other token'.start token'.stop)
      (plain : hasMarkup token.lead = false) (plain' : hasMarkup token'.lead = false)
      (further : Twins source other count tokens tokens') :
      Twins source other (count + 1) (token :: tokens) (token' :: tokens')

/-- What is placed is alike, and the rows behind it are twins still. -/
structure Placed.Alike (source other : List Char) (count : Nat) (placed placed' : Placed) :
    Prop where
  lead : hasMarkup placed.lead = false
  lead' : hasMarkup placed'.lead = false
  node : Php.Alike source other placed.node placed'.node
  rest : Twins source other count placed.rest placed'.rest

section

variable {source other : List Char} {count : Nat} {tokens tokens' : List Token}

/-- Comments have no outlines. -/
theorem outlines_plain (source : List Char) {lead : List Extra} (plain : hasMarkup lead = false) :
    Node.outlines source (lead.map Extra.node) = [] := by
  have none : lead.countP Extra.isMarkup = 0 :=
    List.countP_eq_zero.mpr fun extra member => List.any_eq_false.mp plain extra member
  rw [outlines_extras, none]
  rfl

/-- A tree takes so many tokens, and what it stands for does not depend on their places. -/
structure Tree.Spans (tree : Tree) (size : Nat) : Prop where
  proper : tree.kind ≠ .comment
  place {source other : List Char} {count : Nat} {tokens tokens' : List Token} (role : Role)
    (offset offset' : Nat) (twins : Twins source other (size + count) tokens tokens') :
    (tree.place role offset tokens).Alike source other count (tree.place role offset' tokens')

/-- A row of trees takes so many tokens. -/
structure SpansRow (row : List Child) (size : Nat) : Prop where
  place {source other : List Char} {count : Nat} {tokens tokens' : List Token}
    (offset offset' : Nat) (twins : Twins source other (size + count) tokens tokens') :
    Node.outlines source (placeOthers offset row tokens).1 =
        Node.outlines other (placeOthers offset' row tokens').1 ∧
      Twins source other count (placeOthers offset row tokens).2 (placeOthers offset' row tokens').2

/-- A leaf takes one token. -/
theorem spans_leaf {kind : Kind} (proper : kind ≠ .comment) (l : Lexeme) :
    (Tree.leaf kind l).Spans 1 where
  proper := proper
  place {source other count tokens tokens'} role offset offset' twins := by
    rw [Nat.add_comm] at twins
    cases twins with
    | token text plain plain' further =>
        exact ⟨plain, plain', alike_iff.mpr ⟨rfl, rfl, rfl, textOf?_congr rfl fun _ => text, rfl⟩,
          further⟩

theorem spans_mark (spelling : String) : (Tree.leaf .token (.ofMark spelling)).Spans 1 :=
  spans_leaf (by decide) (.ofMark spelling)

/-- No trees take no tokens. -/
theorem spansRow_nil : SpansRow [] 0 where
  place {source other count tokens tokens'} offset offset' twins := by
    rw [Nat.zero_add] at twins
    exact ⟨rfl, twins⟩

/-- A row takes the tokens of its first tree and those of the others. -/
theorem SpansRow.cons {row : List Child} {tree : Tree} {a b : Nat} (role : Role)
    (first : tree.Spans a) (others : SpansRow row b) : SpansRow ((role, tree) :: row) (a + b) where
  place {source other count tokens tokens'} offset offset' twins := by
    rw [Nat.add_assoc] at twins
    have placed := first.place role offset offset' twins
    obtain ⟨outlines, rest⟩ := others.place _ _ placed.rest
    refine ⟨?_, rest⟩
    simp only [placeOthers, Node.outlines_append, outlines_plain _ placed.lead,
      outlines_plain _ placed.lead', List.nil_append, outlines_place first.proper, outlines]
    rw [placed.node]

/-- The parts of a tree take the tokens one after the other. -/
theorem spans_branch {kind : Kind} {tree : Tree} {row : List Child} {a b : Nat}
    (proper : kind ≠ .comment) (composed : kind.isTextual = false) (role : Role)
    (first : tree.Spans a) (others : SpansRow row b) :
    (Tree.branch kind ((role, tree) :: row)).Spans (a + b) where
  proper := proper
  place {source other count tokens tokens'} outer offset offset' twins := by
    rw [Nat.add_assoc] at twins
    have placed := first.place role offset offset' twins
    obtain ⟨outlines, rest⟩ := others.place _ _ placed.rest
    refine ⟨placed.lead, placed.lead', alike_iff.mpr ⟨rfl, rfl, rfl, ?_, ?_⟩, rest⟩
    · refine textOf?_congr rfl fun textual => ?_
      change kind.isTextual = true at textual
      rw [composed] at textual
      cases textual
    · simp only [Tree.place, Node.children, outlines_place first.proper, outlines]
      rw [placed.node]

mutual

/-- An operand takes its own tokens. -/
theorem StaticOperand.spans : (operand : StaticOperand) →
    operand.tree.Spans operand.lexemes.length
  | .literal literal => by
      rw [StaticOperand.tree, StaticOperand.lexemes]
      exact spans_leaf (by cases literal <;> decide) literal.lexeme
  | .bracketed inner => by
      have closing := spansRow_nil.cons .none (spans_mark ")")
      have length : (StaticOperand.bracketed inner).lexemes.length =
          1 + (inner.lexemes.length + (1 + 0)) := by
        simp only [StaticOperand.lexemes, List.length_cons, List.length_append, List.length_nil]
        omega
      rw [StaticOperand.tree, length]
      exact spans_branch (by decide) rfl .none (spans_mark "(") (closing.cons .none inner.spans)

/-- A static text takes its own tokens. -/
theorem StaticText.spans : (text : StaticText) → text.tree.Spans text.lexemes.length
  | .single operand => by
      rw [StaticText.tree, StaticText.lexemes]
      exact operand.spans
  | .joined first last => by
      have length : (StaticText.joined first last).lexemes.length =
          first.lexemes.length + (1 + (last.lexemes.length + 0)) := by
        simp only [StaticText.lexemes, List.length_cons, List.length_append]
        omega
      rw [StaticText.tree, length]
      exact spans_branch (by decide) rfl .left first.spans
        ((spansRow_nil.cons .right last.spans).cons .operator (spans_mark "."))

end

end

end Untranslated.Php
