/-
This file defines static texts as trees and proves that the grammar reads them.
A static text is a literal, a static text in brackets, or several of them with points between.
-/

import Untranslated.Php.Syntax
import Untranslated.Proofs.Php.Grammar.Runs

namespace Untranslated.Php

/-- Literals have a mark around them, or they are documents. -/
inductive Literal where
  | singleQuoted
  | doubleQuoted
  | heredoc
  | nowdoc
deriving DecidableEq

/-- The shape of the token of a literal. -/
def Literal.shape : Literal → Shape
  | .singleQuoted => .singleQuoted
  | .doubleQuoted => .doubleQuoted
  | .heredoc => .heredoc
  | .nowdoc => .nowdoc

/-- The kind of the tree of a literal. -/
def Literal.kind : Literal → Kind
  | .singleQuoted => .singleQuoted
  | .doubleQuoted => .doubleQuoted
  | .heredoc => .heredoc
  | .nowdoc => .nowdoc

/-- The token of a literal, whose text does not matter to the reader. -/
def Literal.lexeme (literal : Literal) : Lexeme := ⟨literal.shape, "", false⟩

/-- The token of a mark. -/
def Lexeme.ofMark (spelling : String) : Lexeme := ⟨.mark, spelling, false⟩

mutual

/-- An operand of a static text. -/
inductive StaticOperand where
  | literal (literal : Literal)
  | bracketed (inner : StaticText)

/-- Operands with points between them, joined from the left. -/
inductive StaticText where
  | single (operand : StaticOperand)
  | joined (first : StaticText) (last : StaticOperand)

end

mutual

/-- The tokens of an operand. -/
def StaticOperand.lexemes : StaticOperand → List Lexeme
  | .literal literal => [literal.lexeme]
  | .bracketed inner => .ofMark "(" :: (inner.lexemes ++ [.ofMark ")"])

/-- The tokens of a static text. -/
def StaticText.lexemes : StaticText → List Lexeme
  | .single operand => operand.lexemes
  | .joined first last => first.lexemes ++ .ofMark "." :: last.lexemes

end

mutual

/-- The tree of an operand. -/
def StaticOperand.tree : StaticOperand → Tree
  | .literal literal => .leaf literal.kind literal.lexeme
  | .bracketed inner =>
    .branch .parenthesized
      [(.none, .leaf .token (.ofMark "(")), (.none, inner.tree),
        (.none, .leaf .token (.ofMark ")"))]

/-- The tree of a static text. -/
def StaticText.tree : StaticText → Tree
  | .single operand => operand.tree
  | .joined first last =>
    .branch .binary
      [(.left, first.tree), (.operator, .leaf .token (.ofMark ".")), (.right, last.tree)]

end

/-- A static text begins with a literal or with a bracket. -/
def staticStarts : List Lexeme :=
  [.ofMark "(", Literal.lexeme .singleQuoted, Literal.lexeme .doubleQuoted,
    Literal.lexeme .heredoc, Literal.lexeme .nowdoc]

theorem Literal.lexeme_mem_starts (literal : Literal) : literal.lexeme ∈ staticStarts := by
  cases literal <;> decide

/-- An operand begins with a literal or with a bracket. -/
theorem StaticOperand.starts (operand : StaticOperand) :
    ∃ l ∈ staticStarts, ∃ later, operand.lexemes = l :: later := by
  cases operand with
  | literal literal => exact ⟨_, literal.lexeme_mem_starts, [], by rw [lexemes]⟩
  | bracketed inner => exact ⟨_, List.mem_cons_self, _, by rw [lexemes]⟩

/-- A static text begins with a literal or with a bracket. -/
theorem StaticText.starts : (text : StaticText) →
    ∃ l ∈ staticStarts, ∃ later, text.lexemes = l :: later
  | .single operand => by
      rw [lexemes]
      exact operand.starts
  | .joined first last => by
      obtain ⟨l, start, later, begins⟩ := first.starts
      exact ⟨l, start, later ++ .ofMark "." :: last.lexemes, by rw [lexemes, begins]; rfl⟩

/-- The kinds of the trees of static texts. -/
def Kind.isStatic (kind : Kind) : Bool :=
  [.singleQuoted, .doubleQuoted, .heredoc, .nowdoc, .parenthesized, .binary].contains kind

/-- The tree of an operand is of a static kind. -/
theorem StaticOperand.tree_kind (operand : StaticOperand) : operand.tree.kind.isStatic = true := by
  cases operand with
  | literal literal => cases literal <;> rfl
  | bracketed inner => rfl

/-- The tree of a static text is of a static kind. -/
theorem StaticText.tree_kind (text : StaticText) : text.tree.kind.isStatic = true := by
  cases text with
  | single operand => exact operand.tree_kind
  | joined first last => rfl

namespace Grammar

/-- After an operand stands a closing bracket, an arrow or a point. -/
inductive EndsOperand : Ahead → Prop where
  | closing (later : Ahead) : EndsOperand (.ofMark ")" :: later)
  | arrow (later : Ahead) : EndsOperand (.ofMark "=>" :: later)
  | point (later : Ahead) : EndsOperand (.ofMark "." :: later)

/-- After a whole text stands no point. -/
inductive EndsExpression : Ahead → Prop where
  | closing (later : Ahead) : EndsExpression (.ofMark ")" :: later)
  | arrow (later : Ahead) : EndsExpression (.ofMark "=>" :: later)

/-- What ends a text ends its last operand. -/
theorem EndsExpression.operand {rest : Ahead} (ends : EndsExpression rest) : EndsOperand rest := by
  cases ends with
  | closing later => exact .closing later
  | arrow later => exact .arrow later

variable {rest : Ahead} {tree : Tree}

theorem continuePrimary_ends (ends : EndsOperand rest) : continuePrimary tree rest = none := by
  cases ends <;> rfl

theorem isStatic_kind (static : tree.kind.isStatic = true) :
    isVariable tree.kind = false ∧ tree.kind ≠ .destructuring := by
  cases kind : tree.kind <;> rw [kind] at static <;> first | cases static; done | decide

/-- Only an operator of a level that is high enough continues a static text. -/
theorem continueExpression_static {level : Nat} (static : tree.kind.isStatic = true)
    (ends : EndsOperand rest) : continueExpression level tree rest =
      match rest.head?.bind binaryLevel? with
      | none => none
      | some found =>
        if level ≤ found.level then
          some (operator ++ .part .right (expression found.right), combineLeft .binary)
        else none := by
  obtain ⟨noVariable, noList⟩ := isStatic_kind static
  have noList : (tree.kind == .destructuring) = false := beq_eq_false_iff_ne.mpr noList
  unfold continueExpression
  rw [noVariable, noList]
  cases ends <;> rfl

/-- A static tree does not grow before what ends the text. -/
theorem continueExpression_ends {level : Nat} (static : tree.kind.isStatic = true)
    (ends : EndsExpression rest) : continueExpression level tree rest = none := by
  rw [continueExpression_static static ends.operand]
  cases ends <;> rfl

variable {n m : Nat} {children : List Child} {after : Ahead}

/-- An atom that nothing continues is an operand. -/
theorem RunsTo.operand {l : Lexeme} {later : Ahead} (start : l ∈ staticStarts)
    (noCast : atKeywords castTypes later = false)
    (runs : RunsTo grammar n (.rule .atom) (l :: later) [(.none, tree)] rest)
    (ends : EndsOperand rest) :
    RunsTo grammar (n + 5) (.rule .operand) (l :: later) [(.none, tree)] rest := by
  have primary : RunsTo grammar (n + 3) (.rule .primary) (l :: later) [(.none, tree)] rest :=
    .rule (.grow runs (growsTo_stop (continuePrimary_ends ends)))
  refine .rule (.look ?_ primary)
  simp only [staticStarts, List.mem_cons, List.not_mem_nil, or_false] at start
  rcases start with rfl | rfl | rfl | rfl | rfl
  · have notCast : atCast (.ofMark "(" :: later) = false := by
      change (true && atKeywords castTypes later && atMark ")" (later.drop 1)) = false
      rw [noCast]
      rfl
    simp only [notCast]
    rfl
  all_goals rfl

theorem isMark_ofMark (spelling : String) : isMark spelling (.ofMark spelling) = true :=
  beq_self_eq_true spelling

/-- A literal is read as a leaf. -/
theorem runsTo_literal (literal : Literal) (noCast : atKeywords castTypes rest = false)
    (ends : EndsOperand rest) :
    RunsTo grammar 8 (.rule .operand) (literal.lexeme :: rest)
      [(.none, .leaf literal.kind literal.lexeme)] rest := by
  have leaf : RunsTo grammar 3 (.rule .atom) (literal.lexeme :: rest)
      [(.none, .leaf literal.kind literal.lexeme)] rest := by
    cases literal <;> exact .rule (.look rfl (runsTo_token rfl))
  exact .operand literal.lexeme_mem_starts noCast leaf ends

/-- A bracket before a static text begins no cast. -/
theorem startsPlain {l : Lexeme} (start : l ∈ staticStarts) (later : Ahead) :
    atKeywords castTypes (l :: later) = false := by
  have all : ∀ l ∈ staticStarts, (l.shape == .word) = false := by decide
  simp [atKeywords, headIs, all l start]

/-- A bracket before what ends an operand begins no cast. -/
theorem EndsOperand.noCast (ends : EndsOperand rest) : atKeywords castTypes rest = false := by
  cases ends <;> rfl

end Grammar

open Grammar

/-- The fuel that a static text takes grows with the number of its tokens. -/
def staticFuel (lexemes : List Lexeme) : Nat := 16 * lexemes.length

mutual

/-- The grammar reads an operand up to what ends it. -/
theorem StaticOperand.runsTo : (operand : StaticOperand) → {rest : Ahead} →
    (ends : EndsOperand rest) →
    RunsTo grammar (staticFuel operand.lexemes) (.rule .operand) (operand.lexemes ++ rest)
      [(.none, operand.tree)] rest
  | .literal literal, rest, ends => by
      rw [StaticOperand.lexemes, StaticOperand.tree]
      exact (runsTo_literal literal ends.noCast ends).mono (Nat.le_add_right 8 8)
  | .bracketed inner, rest, ends => by
      obtain ⟨l, start, later, begins⟩ := inner.starts
      have closes : EndsExpression (.ofMark ")" :: rest) := .closing rest
      have text := inner.runsTo (Nat.zero_le 15) closes.operand
        (growsTo_stop (continueExpression_ends inner.tree_kind closes))
      rw [StaticOperand.tree]
      have brackets : RunsTo grammar (staticFuel inner.lexemes + 8) parenthesized
          (.ofMark "(" :: (inner.lexemes ++ .ofMark ")" :: rest))
          [(.none, .branch .parenthesized [(.none, .leaf .token (.ofMark "(")), (.none, inner.tree),
            (.none, .leaf .token (.ofMark ")"))])] rest :=
        .node (.mono (.seq (.seq (runsTo_mark (isMark_ofMark "(")) text)
          (runsTo_mark (isMark_ofMark ")"))) (by omega))
      have atom : RunsTo grammar (staticFuel inner.lexemes + 10) (.rule .atom)
          (.ofMark "(" :: (inner.lexemes ++ .ofMark ")" :: rest)) _ rest :=
        .rule (.look rfl brackets)
      have noCast : atKeywords castTypes (inner.lexemes ++ .ofMark ")" :: rest) = false := by
        rw [begins]
        exact startsPlain start _
      have operand := RunsTo.operand List.mem_cons_self noCast atom ends
      have same : (StaticOperand.bracketed inner).lexemes ++ rest =
          .ofMark "(" :: (inner.lexemes ++ .ofMark ")" :: rest) := by
        simp [StaticOperand.lexemes]
      rw [same]
      refine operand.mono ?_
      simp only [staticFuel, StaticOperand.lexemes, List.length_cons, List.length_append,
        List.length_nil]
      omega

/-- The grammar reads a static text, and goes on as with a tree that is read already. -/
theorem StaticText.runsTo : (text : StaticText) → {level : Nat} → (low : level ≤ 15) →
    {rest after : Ahead} → {children : List Child} → {m : Nat} → (ends : EndsOperand rest) →
    (grows : GrowsTo grammar m (continueExpression level) text.tree rest children after) →
    RunsTo grammar (staticFuel text.lexemes + m + 2) (expression level) (text.lexemes ++ rest)
      children after
  | .single operand, level, low, rest, after, children, m, ends, grows => by
      rw [StaticText.tree] at grows
      rw [StaticText.lexemes]
      exact .rule (.grow (operand.runsTo ends) grows)
  | .joined first last, level, low, rest, after, children, m, ends, grows => by
      have point : EndsOperand (.ofMark "." :: (last.lexemes ++ rest)) := .point _
      have stays : continueExpression 16 last.tree rest = none := by
        rw [continueExpression_static last.tree_kind ends]
        cases ends <;> rfl
      have right : RunsTo grammar (staticFuel last.lexemes + 3) (expression 16)
          (last.lexemes ++ rest) [(.none, last.tree)] rest :=
        .rule (.grow (last.runsTo ends) (growsTo_stop stays))
      have sign : RunsTo grammar 2 operator (.ofMark "." :: (last.lexemes ++ rest))
          [(.operator, .leaf .token (.ofMark "."))] (last.lexemes ++ rest) :=
        .part (runsTo_token rfl)
      have continues : continueExpression level first.tree (.ofMark "." :: (last.lexemes ++ rest)) =
          some (operator ++ .part .right (expression 16), combineLeft .binary) := by
        rw [continueExpression_static first.tree_kind point]
        exact if_pos low
      have grown := GrowsTo.step continues (sign.seq right.part) grows
      have whole := first.runsTo low point grown
      have same : (StaticText.joined first last).lexemes ++ rest =
          first.lexemes ++ .ofMark "." :: (last.lexemes ++ rest) := by
        simp [StaticText.lexemes]
      rw [same]
      refine whole.mono ?_
      simp only [staticFuel, StaticText.lexemes, List.length_cons, List.length_append]
      omega

end

/-- A text up to a bracket or an arrow is a whole expression. -/
theorem StaticText.reads (text : StaticText) {rest : Ahead} (ends : EndsExpression rest) :
    RunsTo grammar (staticFuel text.lexemes + 3) anyExpression (text.lexemes ++ rest)
      [(.none, text.tree)] rest :=
  text.runsTo (Nat.zero_le 15) ends.operand
    (growsTo_stop (continueExpression_ends text.tree_kind ends))

/-- A static text as the only argument. -/
def argumentsTree (text : StaticText) : Tree :=
  .branch .arguments
    [(.none, .leaf .token (.ofMark "(")), (.none, .branch .argument [(.none, text.tree)]),
      (.none, .leaf .token (.ofMark ")"))]

/-- A test that no start of a static text passes fails in front of one. -/
theorem StaticText.headIs_eq_false (text : StaticText) (test : Lexeme → Bool)
    (none : ∀ l ∈ staticStarts, test l = false) (rest : Ahead) :
    headIs test (text.lexemes ++ rest) = false := by
  obtain ⟨l, start, later, begins⟩ := text.starts
  rw [begins]
  exact none l start

/-- A static text is read as an argument. -/
theorem runsTo_argument (text : StaticText) {rest : Ahead} :
    RunsTo grammar (staticFuel text.lexemes + 10) (.rule .argument)
      (text.lexemes ++ .ofMark ")" :: rest) [(.none, .branch .argument [(.none, text.tree)])]
      (.ofMark ")" :: rest) := by
  have noWord := text.headIs_eq_false (·.shape == .word) (by decide) (.ofMark ")" :: rest)
  have noSpread := text.headIs_eq_false (isMark "...") (by decide) (.ofMark ")" :: rest)
  have noReference := text.headIs_eq_false (isMark "&") (by decide) (.ofMark ")" :: rest)
  have value := text.reads (.closing rest)
  refine .mono (.rule (.node (.seq (runsTo_optional_skip ?_) (.look ?_ value)))) (by omega)
  · simp only [atWord, noWord, Bool.false_and]
  · simp only [atMark, noSpread, noReference]
    rfl

/-- A static text in brackets is read as the only argument. -/
theorem runsTo_arguments (text : StaticText) {rest : Ahead} :
    RunsTo grammar (staticFuel text.lexemes + 24) (.rule .arguments)
      (.ofMark "(" :: (text.lexemes ++ .ofMark ")" :: rest))
      [(.none, argumentsTree text)] rest := by
  have noClosing := text.headIs_eq_false (isMark ")") (by decide) (.ofMark ")" :: rest)
  have noSpread := text.headIs_eq_false (isMark "...") (by decide) (.ofMark ")" :: rest)
  have item : RunsTo grammar _ (listed ")" (.rule .argument)) _ _ _ :=
    (@runsTo_argument text rest).listed rfl
  refine .mono (.rule (.node (.seq (.seq (runsTo_mark (isMark_ofMark "("))
    (.look ?_ item)) (runsTo_mark (isMark_ofMark ")"))))) (by omega)
  simp only [atMark, noClosing, noSpread]
  rfl

/-- The name of the function that is called. It is no keyword. -/
def functionLexeme : Lexeme := ⟨.word, "__", false⟩

/-- The call of the function with a static text. -/
def callTree (text : StaticText) : Tree :=
  .branch .functionCall [(.function, .leaf .name functionLexeme), (.arguments, argumentsTree text)]

/-- The call of the function with a static text is read as one. -/
theorem runsTo_call (text : StaticText) {rest : Ahead} :
    RunsTo grammar (staticFuel text.lexemes + 40) anyExpression
      (functionLexeme :: .ofMark "(" :: (text.lexemes ++ .ofMark ")" :: .ofMark ";" :: rest))
      [(.none, callTree text)] (.ofMark ";" :: rest) := by
  have function : RunsTo grammar 4 (.rule .atom)
      (functionLexeme :: .ofMark "(" :: (text.lexemes ++ .ofMark ")" :: .ofMark ";" :: rest))
      [(.none, .leaf .name functionLexeme)]
      (.ofMark "(" :: (text.lexemes ++ .ofMark ")" :: .ofMark ";" :: rest)) :=
    .rule (.look rfl (.look rfl (runsTo_token rfl)))
  have stays : continuePrimary (callTree text) (.ofMark ";" :: rest) = none := rfl
  have ends : continueExpression 0 (callTree text) (.ofMark ";" :: rest) = none := rfl
  have arguments : RunsTo grammar _ (.part .arguments (.rule .arguments)) _ _ _ :=
    (@runsTo_arguments text (.ofMark ";" :: rest)).part
  have primary : RunsTo grammar _ (.rule .primary) _ _ _ :=
    .rule (.grow function (.step rfl arguments (growsTo_stop stays)))
  refine .mono (.rule (.grow (.rule (.look ?_ primary)) (growsTo_stop ends))) (by omega)
  rfl

mutual

/-- Inside of brackets an operand opens as many brackets as it closes. -/
theorem StaticOperand.afterClosing : (operand : StaticOperand) → (depth : Nat) → (rest : Ahead) →
    afterClosing (depth + 1) (operand.lexemes ++ rest) = Grammar.afterClosing (depth + 1) rest
  | .literal literal, depth, rest => by
      rw [StaticOperand.lexemes]
      cases literal <;> rfl
  | .bracketed inner, depth, rest => by
      have same : (StaticOperand.bracketed inner).lexemes ++ rest =
          .ofMark "(" :: (inner.lexemes ++ .ofMark ")" :: rest) := by
        simp [StaticOperand.lexemes]
      rw [same]
      exact inner.afterClosing (depth + 1) (.ofMark ")" :: rest)

/-- The brackets of a static text are balanced, so it is passed as a whole. -/
theorem StaticText.afterClosing : (text : StaticText) → (depth : Nat) → (rest : Ahead) →
    Grammar.afterClosing (depth + 1) (text.lexemes ++ rest) = Grammar.afterClosing (depth + 1) rest
  | .single operand, depth, rest => by
      rw [StaticText.lexemes]
      exact operand.afterClosing depth rest
  | .joined first last, depth, rest => by
      rw [StaticText.lexemes, List.append_assoc, first.afterClosing]
      exact last.afterClosing depth rest

end

/-- A number, which stands for any value here. -/
def numberLexeme : Lexeme := ⟨.integer, "", false⟩

/-- What follows the key of the only element of an array. -/
def afterKey (rest : Ahead) : Ahead := .ofMark "=>" :: numberLexeme :: .ofMark "]" :: rest

/-- A number under a static text. -/
def elementTree (text : StaticText) : Tree :=
  .branch .arrayElement
    [(.none, text.tree), (.none, .leaf .token (.ofMark "=>")), (.none, .leaf .integer numberLexeme)]

/-- An array of one number under a static text. -/
def arrayTree (text : StaticText) : Tree :=
  .branch .array
    [(.none, .leaf .token (.ofMark "[")), (.none, elementTree text),
      (.none, .leaf .token (.ofMark "]"))]

/-- A number is read as the value of an element. -/
theorem runsTo_number {rest : Ahead} :
    RunsTo grammar 12 anyExpression (numberLexeme :: .ofMark "]" :: rest)
      [(.none, .leaf .integer numberLexeme)] (.ofMark "]" :: rest) := by
  have leaf : RunsTo grammar 3 (.rule .atom) (numberLexeme :: .ofMark "]" :: rest)
      [(.none, .leaf .integer numberLexeme)] (.ofMark "]" :: rest) :=
    .rule (.look rfl (runsTo_token rfl))
  have primary : RunsTo grammar _ (.rule .primary) _ _ _ := .rule (.grow leaf (growsTo_stop rfl))
  refine .mono (.rule (.grow (.rule (.look ?_ primary)) (growsTo_stop ?_))) (by omega)
  all_goals rfl

/-- A number under a static text is read as an element. -/
theorem runsTo_element (text : StaticText) {rest : Ahead} :
    RunsTo grammar (staticFuel text.lexemes + 24) (.rule .arrayElement)
      (text.lexemes ++ afterKey rest) [(.none, elementTree text)] (.ofMark "]" :: rest) := by
  have noSpread := text.headIs_eq_false (isMark "...") (by decide) (afterKey rest)
  have noReference := text.headIs_eq_false (isMark "&") (by decide) (afterKey rest)
  have key := text.reads (.arrow (numberLexeme :: .ofMark "]" :: rest))
  have value : RunsTo grammar 16 (optional (atMark "=>")
      (mark "=>" ++ either (atMark "&") byReference anyExpression)) (afterKey rest)
      [(.none, .leaf .token (.ofMark "=>")), (.none, .leaf .integer numberLexeme)]
      (.ofMark "]" :: rest) :=
    .optional rfl (.seq (runsTo_mark (isMark_ofMark "=>")) (.eitherSecond rfl runsTo_number))
  refine .mono (.rule (.node (.look ?_ (key.seq value)))) (by omega)
  simp only [atMark, noSpread, noReference]
  rfl

/-- The array is no pattern of an assignment. -/
theorem StaticText.not_destructuring (text : StaticText) (rest : Ahead) :
    atDestructuring (.ofMark "[" :: (text.lexemes ++ afterKey (.ofMark ";" :: rest))) = false := by
  have group := text.afterClosing 0 (afterKey (.ofMark ";" :: rest))
  change atMark "=" (Grammar.afterClosing 1 _) = false
  rw [group]
  rfl

/-- An array of one number under a static text is read as one. -/
theorem runsTo_array (text : StaticText) {rest : Ahead} :
    RunsTo grammar (staticFuel text.lexemes + 48) anyExpression
      (.ofMark "[" :: (text.lexemes ++ afterKey (.ofMark ";" :: rest)))
      [(.none, arrayTree text)] (.ofMark ";" :: rest) := by
  have noClosing := text.headIs_eq_false (isMark "]") (by decide) (afterKey (.ofMark ";" :: rest))
  have noComma := text.headIs_eq_false (isMark ",") (by decide) (afterKey (.ofMark ";" :: rest))
  have element : RunsTo grammar _ (listed "]" (.rule .arrayElement)) _ _ _ :=
    (@runsTo_element text (.ofMark ";" :: rest)).listed rfl
  have items : RunsTo grammar (staticFuel text.lexemes + 30) (arrayItems "]")
      (text.lexemes ++ afterKey (.ofMark ";" :: rest)) [(.none, elementTree text)]
      (.ofMark "]" :: .ofMark ";" :: rest) := by
    refine .look ?_ element
    simp only [atMark, noClosing, noComma]
    rfl
  have literal : RunsTo grammar (staticFuel text.lexemes + 36) arrayLiteral
      (.ofMark "[" :: (text.lexemes ++ afterKey (.ofMark ";" :: rest)))
      [(.none, arrayTree text)] (.ofMark ";" :: rest) :=
    .mono (.eitherFirst rfl (.node (.seq (.seq (runsTo_mark (isMark_ofMark "[")) items)
      (runsTo_mark (isMark_ofMark "]"))))) (by omega)
  have atom : RunsTo grammar (staticFuel text.lexemes + 38) (.rule .atom)
      (.ofMark "[" :: (text.lexemes ++ afterKey (.ofMark ";" :: rest)))
      [(.none, arrayTree text)] (.ofMark ";" :: rest) := by
    refine .rule (.look ?_ literal)
    simp only [text.not_destructuring]
    rfl
  have primary : RunsTo grammar _ (.rule .primary) _ _ _ := .rule (.grow atom (growsTo_stop rfl))
  refine .mono (.rule (.grow (.rule (.look ?_ primary)) (growsTo_stop ?_))) (by omega)
  all_goals rfl

/-- The end of the code. -/
def endingLexeme : Lexeme := ⟨.ending, "", false⟩

/-- A program of one statement. -/
def statementTree (kind : Kind) (children : List Child) : Tree :=
  .branch .program
    [(.none, .branch kind (children ++ [(.none, .leaf .token (.ofMark ";"))])),
      (.none, .leaf .token endingLexeme)]

/-- The tokens of a call of the function with a static text. -/
def callLexemes (text : StaticText) : Ahead :=
  functionLexeme :: .ofMark "(" ::
    (text.lexemes ++ [.ofMark ")", .ofMark ";", endingLexeme])

/-- A program that calls the function with a static text. -/
def callProgram (text : StaticText) : Tree :=
  statementTree .statement [(.none, callTree text)]

/-- The keyword of a return. -/
def returnLexeme : Lexeme := ⟨.word, "return", false⟩

/-- The tokens of a return of an array of one number under a static text. -/
def arrayLexemes (text : StaticText) : Ahead :=
  returnLexeme :: .ofMark "[" :: (text.lexemes ++ afterKey [.ofMark ";", endingLexeme])

/-- A program that returns an array of one number under a static text. -/
def arrayProgram (text : StaticText) : Tree :=
  statementTree .returnStatement [(.none, .leaf .token returnLexeme), (.none, arrayTree text)]

/-- A program of one statement is read if the statement is. -/
theorem runsTo_program {n : Nat} {kind : Kind} {ahead : Ahead} {children : List Child}
    (goes : atEnding ahead = false)
    (runs : RunsTo grammar n (.rule .statement) ahead
      [(.none, .branch kind (children ++ [(.none, .leaf .token (.ofMark ";"))]))] [endingLexeme]) :
    RunsTo grammar (n + 7) (.rule .program) ahead [(.none, statementTree kind children)] [] := by
  have goes' : (!atEnding ahead) = true := by rw [goes]; rfl
  have row : RunsTo grammar _ (.many (fun ahead => !atEnding ahead) _) _ _ _ :=
    .many goes' runs (runsTo_many_stop rfl)
  exact .mono (.rule (.node (.seq row (runsTo_token rfl)))) (by omega)

/-- The tokens of a call are read as the program of the call. -/
theorem runsTo_callProgram (text : StaticText) :
    RunsTo grammar (staticFuel text.lexemes + 64) (.rule .program) (callLexemes text)
      [(.none, callProgram text)] [] := by
  have call := @runsTo_call text [endingLexeme]
  have statement : RunsTo grammar _ (.node .statement expressionStatement) _ _ _ :=
    (call.seq (runsTo_separator rfl rfl)).node
  refine .mono (runsTo_program rfl (.rule (.look ?_ statement))) (by omega)
  rfl

/-- The tokens of a return are read as the program of the return. -/
theorem runsTo_arrayProgram (text : StaticText) :
    RunsTo grammar (staticFuel text.lexemes + 80) (.rule .program) (arrayLexemes text)
      [(.none, arrayProgram text)] [] := by
  have array := @runsTo_array text [endingLexeme]
  have jumps : RunsTo grammar (staticFuel text.lexemes + 60) (jump "return") (arrayLexemes text)
      [(.none, .leaf .token returnLexeme), (.none, arrayTree text),
        (.none, .leaf .token (.ofMark ";"))] [endingLexeme] :=
    .mono (.seq (.seq (runsTo_token rfl) (.optional rfl array)) (runsTo_separator rfl rfl))
      (by omega)
  have statement : RunsTo grammar _ (.node .returnStatement (jump "return")) _ _ _ := jumps.node
  refine .mono (runsTo_program rfl (.rule (.look ?_ statement))) (by omega)
  rfl

/-- Enough fuel for a run is enough for the reading of the tokens. -/
theorem read_of_runsTo {n : Nat} {tokens : List Token} {tree : Tree}
    (runs : RunsTo grammar n (.rule .program) (tokens.map (·.lexeme)) [(.none, tree)] [])
    (enough : n ≤ readingDepth tokens.length) : read tokens = .ok tree := by
  have reads := runs (readingDepth (tokens.map (·.lexeme)).length) (by simpa using enough)
  simp only [read, reads, bind, Except.bind]
  rfl

/-- The reader gives the program of a call for its tokens, in any places. -/
theorem read_call {text : StaticText} {tokens : List Token}
    (lexemes : tokens.map (·.lexeme) = callLexemes text) :
    read tokens = .ok (callProgram text) := by
  have count := congrArg List.length lexemes
  refine read_of_runsTo (lexemes ▸ runsTo_callProgram text) ?_
  simp only [List.length_map, callLexemes, List.length_cons, List.length_append,
    List.length_nil] at count
  rw [count, readingDepth, staticFuel]
  omega

/-- The reader gives the program of a return for its tokens, in any places. -/
theorem read_array {text : StaticText} {tokens : List Token}
    (lexemes : tokens.map (·.lexeme) = arrayLexemes text) :
    read tokens = .ok (arrayProgram text) := by
  have count := congrArg List.length lexemes
  refine read_of_runsTo (lexemes ▸ runsTo_arrayProgram text) ?_
  simp only [List.length_map, arrayLexemes, afterKey, List.length_cons, List.length_append,
    List.length_nil] at count
  rw [count, readingDepth, staticFuel]
  omega

end Untranslated.Php
