/-
This file proves that an expression is read as a single tree with a name.
-/

import Untranslated.Proofs.Php.Grammar.Trees

namespace Untranslated.Php

/-- The kinds of trees that may have any children. -/
def Kind.isPlain (kind : Kind) : Bool :=
  !([.token, .comment, .name, .qualifiedName, .variable, .useDeclaration, .argument, .singleQuoted,
    .doubleQuoted, .heredoc, .nowdoc, .template, .integer].contains kind)

theorem Kind.isNamed_of_isPlain {kind : Kind} (plain : kind.isPlain = true) :
    kind.isNamed = true := by
  cases kind <;> simp_all [isPlain, isNamed]

end Untranslated.Php

namespace Untranslated.Php.Grammar

/-- A call takes over the parts of these trees, and so does a construction. -/
def isAbsorbed (kind : Kind) : Bool :=
  [.member, .nullsafeMember, .staticMember, .classConstant, .bareConstruction].contains kind

/-- A tree goes into a larger tree with new children, as a whole or by its parts. -/
inductive Growth (tree : Tree) (children : List Child) : Tree → Prop where
  | wrap {kind : Kind} (plain : kind.isPlain = true) (role : Role) :
      Growth tree children (.branch kind ((role, tree) :: children))
  | absorb {kind : Kind} (plain : kind.isPlain = true) (parts : isAbsorbed tree.kind = true) :
      Growth tree children (.branch kind (tree.children ++ children))

/-- A tree stays as it is where nothing can be read behind it. Otherwise it grows. -/
def Enlarges (tree : Tree) (continuation : Pattern Rule) (combine : Tree → List Child → Tree) :
    Prop :=
  (∃ wanted, continuation = .fail wanted ∧ combine = fun tree _ => tree) ∨
    ∀ children, Growth tree children (combine tree children)

section

variable {tree : Tree} {ahead : Ahead} {continuation : Pattern Rule}
  {combine : Tree → List Child → Tree}

/-- A tree grows by going into a larger one in a role. -/
theorem enlarges_partOf {kind : Kind} (plain : kind.isPlain = true) (role : Role) :
    Enlarges tree continuation (partOf kind role) :=
  .inr fun _ => .wrap plain role

/-- A tree grows by going into a larger one on the left. -/
theorem enlarges_combineLeft {kind : Kind} (plain : kind.isPlain = true) :
    Enlarges tree continuation (combineLeft kind) :=
  enlarges_partOf plain .left

/-- A tree grows to the call of it. -/
theorem enlarges_callOf : Enlarges tree continuation callOf := by
  refine .inr fun children => ?_
  unfold callOf
  split
  all_goals first
    | exact .absorb rfl (by simp [*, isAbsorbed])
    | exact .wrap rfl .function

/-- A tree stays where nothing can be read behind it. -/
theorem enlarges_same (wanted : String) :
    Enlarges tree (.fail wanted) fun tree _ => tree :=
  .inl ⟨wanted, rfl, rfl⟩

theorem scopedKind_isPlain (ahead : Ahead) : (scopedKind ahead).isPlain = true := by
  unfold scopedKind
  split <;> rfl

/-- Calls, members and subscripts enlarge the tree before them. -/
theorem continuePrimary_enlarges
    (continues : continuePrimary tree ahead = some (continuation, combine)) :
    Enlarges tree continuation combine := by
  unfold continuePrimary at continues
  repeat' split at continues
  all_goals cases continues
  · exact enlarges_callOf
  · exact enlarges_partOf rfl .object
  · exact enlarges_partOf rfl .object
  · exact enlarges_partOf (scopedKind_isPlain ahead) .scope
  · exact enlarges_partOf rfl .none

/-- Members and subscripts enlarge the reference before them. -/
theorem continueReference_enlarges
    (continues : continueReference tree ahead = some (continuation, combine)) :
    Enlarges tree continuation combine := by
  unfold continueReference at continues
  simp only at continues
  repeat' split at continues
  · cases continues
  · exact continuePrimary_enlarges continues
  · cases continues

/-- Operators enlarge their left operand. -/
theorem continueExpression_enlarges {level : Nat}
    (continues : continueExpression level tree ahead = some (continuation, combine)) :
    Enlarges tree continuation combine := by
  unfold continueExpression at continues
  repeat' split at continues
  all_goals cases continues
  all_goals first
    | exact enlarges_partOf rfl .none
    | exact enlarges_combineLeft rfl

/-- The arguments of a construction enlarge the class before them. -/
theorem constructionOf_enlarges
    (continues : constructionOf tree ahead = some (continuation, combine)) :
    Enlarges tree continuation combine := by
  unfold constructionOf at continues
  split at continues
  · rename_i bare
    cases continues
    have is : tree.kind = .bareConstruction := by
      simp only [Bool.and_eq_true] at bare
      exact eq_of_beq bare.1.1
    exact .inr fun _ => .absorb rfl (by rw [is]; rfl)
  · cases continues

/-- What follows an item of a list enlarges it. -/
theorem continueItem_enlarges
    (continues : continueItem tree ahead = some (continuation, combine)) :
    Enlarges tree continuation combine := by
  unfold continueItem at continues
  repeat' split at continues
  all_goals cases continues
  · exact enlarges_partOf rfl .none
  · exact enlarges_same "=>"

end

/-- A tree with a name keeps having one as it grows. -/
theorem Enlarges.named {tree : Tree} {continuation : Pattern Rule}
    {combine : Tree → List Child → Tree} (enlarges : Enlarges tree continuation combine)
    (named : tree.kind.isNamed = true) (children : List Child) :
    (combine tree children).kind.isNamed = true := by
  rcases enlarges with ⟨wanted, -, rfl⟩ | grows
  · exact named
  · have grown := grows children
    generalize combine tree children = larger at grown ⊢
    cases grown with
    | wrap plain role => exact Kind.isNamed_of_isPlain plain
    | absorb plain parts => exact Kind.isNamed_of_isPlain plain

/-- These rules read a single tree with a name. -/
def IsExpression : Rule → Prop
  | .expression _ | .operand | .primary | .atom | .variable | .destructuring => True
  | _ => False

section

variable {isSingle : Rule → Prop}

/-- A choice between two patterns of single trees reads a single tree. -/
theorem Single.ite {c : Prop} [Decidable c] {first second : Pattern Rule}
    (yes : Single isSingle first) (no : Single isSingle second) :
    Single isSingle (if c then first else second) := by
  split
  · exact yes
  · exact no

/-- A choice by what is ahead reads a single tree if both patterns do. -/
theorem Single.either {test : Ahead → Bool} {first second : Pattern Rule}
    (yes : Single isSingle first) (no : Single isSingle second) :
    Single isSingle (either test first second) :=
  .look fun _ => .ite yes no

/-- A single tree that grows is a single tree. -/
theorem Single.grows {first : Pattern Rule}
    {next : Tree → Ahead → Option (Pattern Rule × (Tree → List Child → Tree))}
    (start : Single isSingle first)
    (enlarges : ∀ {tree ahead continuation combine},
      next tree ahead = some (continuation, combine) → Enlarges tree continuation combine) :
    Single isSingle (.grow first next) :=
  .grow start fun _ _ _ _ continues children named => (enlarges continues).named named children

theorem single_anyName : Single isSingle anyName :=
  .look fun _ => .ite (.node rfl) (.ite (.node rfl) (.ite (.node rfl) (.token rfl)))

end

/-- An operand is a single tree. -/
theorem operand_single : Single IsExpression operandPattern := by
  refine .look fun ahead => ?_
  repeat' apply Single.ite
  all_goals first
    | exact .node rfl
    | exact .rule trivial

/-- An atom is a single tree. -/
theorem atom_single : Single IsExpression atomPattern := by
  have construction : Single IsExpression construction :=
    .either (.node rfl) (.grows (.node rfl) constructionOf_enlarges)
  have arrays : Single IsExpression arrayLiteral := .either (.node rfl) (.node rfl)
  refine .look fun ahead => ?_
  split
  all_goals repeat' apply Single.ite
  all_goals first
    | exact .node rfl
    | exact .token rfl
    | exact .fail _
    | exact .rule trivial
    | exact construction
    | exact arrays
    | exact single_anyName

/-- The rules of expressions read a single tree with a name. -/
theorem grammar_single (rule : Rule) (is : IsExpression rule) :
    Single IsExpression (grammar rule) := by
  cases rule with
  | expression level => exact .grows (.rule trivial) continueExpression_enlarges
  | operand => exact operand_single
  | primary => exact .grows (.rule trivial) continuePrimary_enlarges
  | atom => exact atom_single
  | «variable» => exact .look fun _ => .ite (.node rfl) (.ite (.node rfl) (.node rfl))
  | destructuring => exact .either (.node rfl) (.node rfl)
  | _ => cases is

/-- An expression is a single tree with a name. -/
theorem expression_single {level : Nat} {ahead rest : Ahead} {children : List Child}
    (reads : Reads grammar (expression level) ahead children rest) :
    ∃ tree, children = [(.none, tree)] ∧ tree.kind.isNamed = true := by
  have is : IsExpression (.expression level) := trivial
  exact (reads_iff.mp reads).single grammar_single (.rule is)

end Untranslated.Php.Grammar
