/-
This file proves what the trees look like that the grammar reads.
An expression is a single tree, and the leaves of the trees are the tokens that were read.
-/

import Untranslated.Proofs.Php.Grammar.Derivations

namespace Untranslated.Php

mutual

/-- The lexemes of the leaves from left to right. -/
def Tree.lexemes : Tree → List Lexeme
  | .leaf _ l => [l]
  | .separator => []
  | .branch _ children => rowLexemes children

/-- The lexemes of children from left to right. -/
def rowLexemes : List Child → List Lexeme
  | [] => []
  | (_, tree) :: others => tree.lexemes ++ rowLexemes others

end

/-- The lexemes of children in a row stand in a row. -/
theorem rowLexemes_append (first second : List Child) :
    rowLexemes (first ++ second) = rowLexemes first ++ rowLexemes second := by
  induction first with
  | nil => rfl
  | cons child others inductionHypothesis =>
      obtain ⟨role, tree⟩ := child
      simp only [List.cons_append, rowLexemes, inductionHypothesis, List.append_assoc]

end Untranslated.Php

namespace Untranslated.Php.Grammar

variable {Rule : Type} {grammar : Rule → Pattern Rule}

section

variable {Good : Tree → Prop}

/-- An invariant of trees is kept by a pattern, if the rules in it keep it. -/
inductive Keeps (grammar : Rule → Pattern Rule) (Good : Tree → Prop) : Pattern Rule → Prop where
  | nothing : Keeps grammar Good .nothing
  | fail (wanted : String) : Keeps grammar Good (.fail wanted)
  | token {kind : Kind} {accepts : Lexeme → Bool} {wanted : String}
      (good : ∀ l, accepts l = true → Good (.leaf kind l)) :
      Keeps grammar Good (.token kind accepts wanted)
  | separator : Keeps grammar Good .separator
  | rule (rule : Rule) : Keeps grammar Good (.rule rule)
  | seq {first second : Pattern Rule} (before : Keeps grammar Good first)
      (after : Keeps grammar Good second) : Keeps grammar Good (.seq first second)
  | look {choose : Ahead → Pattern Rule} (each : ∀ ahead, Keeps grammar Good (choose ahead)) :
      Keeps grammar Good (.look choose)
  | many {goes : Ahead → Bool} {body : Pattern Rule} (item : Keeps grammar Good body) :
      Keeps grammar Good (.many goes body)
  | node {kind : Kind} {body : Pattern Rule} (inside : Keeps grammar Good body)
      (good : ∀ ahead children rest, Reads grammar body ahead children rest →
        (∀ child ∈ children, Good child.2) → Good (.branch kind children)) :
      Keeps grammar Good (.node kind body)
  | part {role : Role} {body : Pattern Rule} (inside : Keeps grammar Good body) :
      Keeps grammar Good (.part role body)
  | grow {first : Pattern Rule}
      {next : Tree → Ahead → Option (Pattern Rule × (Tree → List Child → Tree))}
      (start : Keeps grammar Good first)
      (continues : ∀ tree ahead continuation combine,
        next tree ahead = some (continuation, combine) → Keeps grammar Good continuation)
      (good : ∀ tree ahead continuation combine, next tree ahead = some (continuation, combine) →
        ∀ children, Good tree → (∀ child ∈ children, Good child.2) → Good (combine tree children))
      (whole : ∀ tree ahead continuation combine, next tree ahead = some (continuation, combine) →
        (∃ wanted, continuation = .fail wanted) ∨ ∀ children, Good tree →
          (combine tree children).lexemes = tree.lexemes ++ rowLexemes children) :
      Keeps grammar Good (.grow first next)

/-- An invariant does not depend on the roles of the children. -/
theorem relabel_good {role : Role} {children : List Child}
    (good : ∀ child ∈ children, Good child.2) : ∀ child ∈ relabel role children, Good child.2 := by
  unfold relabel
  split
  · rename_i other tree
    intro child member
    obtain rfl := List.mem_singleton.mp member
    exact good (other, tree) List.mem_cons_self
  · exact good

/-- The lexemes do not depend on the roles of the children. -/
theorem rowLexemes_relabel (role : Role) (children : List Child) :
    rowLexemes (relabel role children) = rowLexemes children := by
  unfold relabel
  split <;> rfl

/-- A tree goes on by patterns and to trees that keep the invariant, and it loses no token. -/
structure Continues (grammar : Rule → Pattern Rule) (Good : Tree → Prop) (next : Continuation Rule) :
    Prop where
  keeps : ∀ tree ahead continuation combine, next tree ahead = some (continuation, combine) →
    Keeps grammar Good continuation
  good : ∀ tree ahead continuation combine, next tree ahead = some (continuation, combine) →
    ∀ children, Good tree → (∀ child ∈ children, Good child.2) → Good (combine tree children)
  whole : ∀ tree ahead continuation combine, next tree ahead = some (continuation, combine) →
    (∃ wanted, continuation = .fail wanted) ∨ ∀ children, Good tree →
      (combine tree children).lexemes = tree.lexemes ++ rowLexemes children

/-- A task keeps an invariant if its pattern does, or if its tree has it and keeps it growing. -/
def Task.Keeps (grammar : Rule → Pattern Rule) (Good : Tree → Prop) : Task Rule → Prop
  | .read pattern => Grammar.Keeps grammar Good pattern
  | .grow next tree => Continues grammar Good next ∧ Good tree

/-- The lexemes of what a task has read already. -/
def Task.lexemes : Task Rule → List Lexeme
  | .read _ => []
  | .grow _ tree => tree.lexemes

section

variable {task : Task Rule} {ahead rest : Ahead} {children : List Child}

/-- What is derived has the invariant that the grammar keeps. -/
theorem Derives.good (separator : Good .separator) (mark : ∀ l, Good (.leaf .token l))
    (rules : ∀ rule, Keeps grammar Good (grammar rule))
    (derives : Derives grammar task ahead children rest) (keeps : task.Keeps grammar Good) :
    ∀ child ∈ children, Good child.2 := by
  induction derives with
  | nothing | stop => simp
  | token accepted =>
      cases keeps with
      | token good => simpa using good _ accepted
  | lineBreak => simpa using separator
  | semicolon => simpa using mark _
  | rule _ inside => exact inside (rules _)
  | seq _ _ front back =>
      cases keeps with
      | seq before after => exact List.forall_mem_append.mpr ⟨front before, back after⟩
  | look _ chosen =>
      cases keeps with
      | look each => exact chosen (each _)
  | many _ _ _ item further =>
      cases keeps with
      | many body => exact List.forall_mem_append.mpr ⟨item body, further (.many body)⟩
  | node derivation inside =>
      cases keeps with
      | node body good => simpa using good _ _ _ (reads_iff.mpr derivation) (inside body)
  | part _ inside =>
      cases keeps with
      | part body => exact relabel_good (inside body)
  | grow _ _ start larger =>
      cases keeps with
      | grow first continues good whole =>
          exact larger ⟨⟨continues, good, whole⟩, start first _ List.mem_cons_self⟩
  | several _ _ start =>
      cases keeps with
      | grow first => exact start first
  | grown => simpa using keeps.2
  | step more _ _ parts larger =>
      obtain ⟨continues, own⟩ := keeps
      have goodParts := parts (continues.keeps _ _ _ _ more)
      exact larger ⟨continues, continues.good _ _ _ _ more _ own goodParts⟩

/-- The leaves of what is derived are the tokens that are taken. -/
theorem Derives.lexemes (separator : Good .separator) (mark : ∀ l, Good (.leaf .token l))
    (rules : ∀ rule, Keeps grammar Good (grammar rule))
    (derives : Derives grammar task ahead children rest) (keeps : task.Keeps grammar Good) :
    rowLexemes children ++ rest = task.lexemes ++ ahead := by
  induction derives with
  | nothing | stop | token | lineBreak | semicolon => rfl
  | rule _ inside => exact inside (rules _)
  | seq _ _ front back =>
      cases keeps with
      | seq before after =>
          rw [rowLexemes_append, List.append_assoc, back after]
          exact front before
  | look _ chosen =>
      cases keeps with
      | look each => exact chosen (each _)
  | many _ _ _ item further =>
      cases keeps with
      | many body =>
          rw [rowLexemes_append, List.append_assoc, further (.many body)]
          exact item body
  | node _ inside =>
      cases keeps with
      | node body => simpa [rowLexemes, Tree.lexemes, Task.lexemes] using inside body
  | part _ inside =>
      cases keeps with
      | part body =>
          rw [rowLexemes_relabel]
          exact inside body
  | grow derivation _ start larger =>
      cases keeps with
      | grow first continues good whole =>
          have own := derivation.good separator mark rules first _ List.mem_cons_self
          rw [larger ⟨⟨continues, good, whole⟩, own⟩]
          simpa [rowLexemes, Task.lexemes] using start first
  | several _ _ start =>
      cases keeps with
      | grow first => exact start first
  | grown => simp [rowLexemes, Task.lexemes]
  | step more derivation _ parts larger =>
      obtain ⟨continues, own⟩ := keeps
      rcases continues.whole _ _ _ _ more with ⟨wanted, rfl⟩ | joined
      · cases derivation
      · have inside := continues.keeps _ _ _ _ more
        have goodParts := derivation.good separator mark rules inside
        have taken := parts inside
        rw [larger ⟨continues, continues.good _ _ _ _ more _ own goodParts⟩]
        simp only [Task.lexemes, List.nil_append] at taken ⊢
        rw [joined _ own, List.append_assoc, taken]

end

end

/-- A pattern reads a single tree of a kind with a name, if these rules do. -/
inductive Single (isSingle : Rule → Prop) : Pattern Rule → Prop where
  | fail (wanted : String) : Single isSingle (.fail wanted)
  | token {kind : Kind} {accepts : Lexeme → Bool} {wanted : String} (named : kind.isNamed = true) :
      Single isSingle (.token kind accepts wanted)
  | node {kind : Kind} {body : Pattern Rule} (named : kind.isNamed = true) :
      Single isSingle (.node kind body)
  | rule {rule : Rule} (single : isSingle rule) : Single isSingle (.rule rule)
  | look {choose : Ahead → Pattern Rule} (each : ∀ ahead, Single isSingle (choose ahead)) :
      Single isSingle (.look choose)
  | grow {first : Pattern Rule}
      {next : Tree → Ahead → Option (Pattern Rule × (Tree → List Child → Tree))}
      (start : Single isSingle first)
      (named : ∀ tree ahead continuation combine, next tree ahead = some (continuation, combine) →
        ∀ children, tree.kind.isNamed = true → (combine tree children).kind.isNamed = true) :
      Single isSingle (.grow first next)

/-- A task gives a single tree with a name, by its pattern or by what its tree may grow to. -/
def Task.Single (isSingle : Rule → Prop) : Task Rule → Prop
  | .read pattern => Grammar.Single isSingle pattern
  | .grow next tree => tree.kind.isNamed = true ∧
    ∀ tree ahead continuation combine, next tree ahead = some (continuation, combine) →
      ∀ children, tree.kind.isNamed = true → (combine tree children).kind.isNamed = true

/-- A task for single trees gives one tree with a name. -/
theorem Derives.single {isSingle : Rule → Prop} {task : Task Rule} {ahead rest : Ahead}
    {children : List Child} (rules : ∀ rule, isSingle rule → Single isSingle (grammar rule))
    (derives : Derives grammar task ahead children rest) (single : task.Single isSingle) :
    ∃ tree, children = [(.none, tree)] ∧ tree.kind.isNamed = true := by
  induction derives with
  | nothing | lineBreak | semicolon | seq | stop | many | part => cases single
  | token =>
      cases single with
      | token named => exact ⟨_, rfl, named⟩
  | rule _ inside =>
      cases single with
      | rule is => exact inside (rules _ is)
  | look _ chosen =>
      cases single with
      | look each => exact chosen (each _)
  | node =>
      cases single with
      | node named => exact ⟨_, rfl, named⟩
  | grow _ _ start larger =>
      cases single with
      | grow first named =>
          obtain ⟨tree, same, own⟩ := start first
          obtain ⟨-, rfl⟩ := Prod.mk.inj (List.cons.inj same).1
          exact larger ⟨own, named⟩
  | several _ noTree start =>
      cases single with
      | grow first =>
          obtain ⟨tree, rfl, -⟩ := start first
          exact absurd rfl (noTree _)
  | grown => exact ⟨_, rfl, single.1⟩
  | step more _ _ _ larger => exact larger ⟨single.2 _ _ _ _ more _ single.1, single.2⟩

end Untranslated.Php.Grammar
