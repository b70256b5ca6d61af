/-
This file proves that the trees that the grammar reads are well-formed.
The nodes whose text is looked at begin with a token, and an argument ends in its value. The kind of
a quoted text is that of its token.
-/

import Untranslated.Php.Syntax
import Untranslated.Proofs.Php.Grammar.Expressions

namespace Untranslated.Php.Grammar

/-- Which tokens stand for themselves. Only tokens have quoted text and plain names. -/
def LeafFits (kind : Kind) (l : Lexeme) : Prop :=
  match kind with
  | .token | .expression | .real => True
  | .name => l.shape = .word
  | .integer => l.shape = .integer
  | .singleQuoted => l.shape = .singleQuoted
  | .doubleQuoted => l.shape = .doubleQuoted
  | .heredoc => l.shape = .heredoc
  | .nowdoc => l.shape = .nowdoc
  | _ => False

/-- What the children of a node have to be like. An argument may begin with the name of its
parameter, and it ends in its value. -/
def Fits (kind : Kind) (children : List Child) : Prop :=
  match kind with
  | .qualifiedName | .variable | .useDeclaration =>
    ∃ role kind l others, children = (role, .leaf kind l) :: others
  | .argument =>
    ∃ named before value, children = named ++ before ++ [(.none, value)] ∧
      (named = [] ∨ ∃ l, named = [(.name, .leaf .name l)]) ∧
      (∀ child ∈ before, child.1 = .none) ∧ value.kind.isNamed = true
  | .template =>
    ∃ l others l', children = (.none, .leaf .token l) :: others ++ [(.none, .leaf .token l')] ∧
      l.shape = .templateOpening ∧ l'.shape = .templateClosing
  | kind => kind.isPlain = true

/-- Trees whose tokens fit their leaves and whose children fit their nodes. -/
inductive Formed : Tree → Prop where
  | leaf {kind : Kind} {l : Lexeme} (fits : LeafFits kind l) : Formed (.leaf kind l)
  | separator : Formed .separator
  | branch {kind : Kind} {children : List Child} (fits : Fits kind children)
      (inside : ∀ child ∈ children, Formed child.2) : Formed (.branch kind children)

/-- Any children fit a plain kind. -/
theorem fits_of_isPlain {kind : Kind} (plain : kind.isPlain = true) (children : List Child) :
    Fits kind children := by
  cases kind <;> first
    | exact plain
    | cases plain

/-- The children of a well-formed tree are well-formed. -/
theorem Formed.children {tree : Tree} (formed : Formed tree) :
    ∀ child ∈ tree.children, Formed child.2 := by
  cases formed with
  | leaf fits => simp [Tree.children]
  | separator => simp [Tree.children]
  | branch fits inside => exact inside

/-- A tree whose parts are taken over is no leaf. -/
theorem Formed.lexemes_children {tree : Tree} (formed : Formed tree)
    (parts : isAbsorbed tree.kind = true) : tree.lexemes = rowLexemes tree.children := by
  cases formed with
  | @leaf kind l fits => cases kind <;> first | exact False.elim fits | cases parts
  | separator => cases parts
  | branch fits inside => rw [Tree.lexemes, Tree.children]

section

variable {tree : Tree} {continuation : Pattern Rule} {combine : Tree → List Child → Tree}

/-- A well-formed tree that grows by well-formed children is well-formed. -/
theorem Enlarges.formed (enlarges : Enlarges tree continuation combine) (formed : Formed tree)
    {children : List Child} (inside : ∀ child ∈ children, Formed child.2) :
    Formed (combine tree children) := by
  rcases enlarges with ⟨wanted, -, rfl⟩ | grows
  · exact formed
  · have grown := grows children
    generalize combine tree children = larger at grown ⊢
    cases grown with
    | wrap plain role =>
        exact .branch (fits_of_isPlain plain _) (List.forall_mem_cons.mpr ⟨formed, inside⟩)
    | absorb plain parts =>
        exact .branch (fits_of_isPlain plain _)
          (List.forall_mem_append.mpr ⟨formed.children, inside⟩)

/-- A tree that grows keeps its tokens and gets those of its new children behind them. -/
theorem Enlarges.lexemes (enlarges : Enlarges tree continuation combine) :
    (∃ wanted, continuation = .fail wanted) ∨ ∀ children, Formed tree →
      (combine tree children).lexemes = tree.lexemes ++ rowLexemes children := by
  rcases enlarges with ⟨wanted, is, -⟩ | grows
  · exact .inl ⟨wanted, is⟩
  · refine .inr fun children formed => ?_
    have grown := grows children
    generalize combine tree children = larger at grown ⊢
    cases grown with
    | wrap plain role => rw [Tree.lexemes, rowLexemes]
    | absorb plain parts => rw [Tree.lexemes, rowLexemes_append, formed.lexemes_children parts]

end

section

variable {first second body : Pattern Rule}

/-- Two patterns in a row keep well-formed trees just when both do. -/
@[simp] theorem keeps_append : Keeps grammar Formed (first ++ second) ↔
    Keeps grammar Formed first ∧ Keeps grammar Formed second := by
  constructor
  · intro keeps
    cases keeps with
    | seq before after => exact ⟨before, after⟩
  · rintro ⟨before, after⟩
    exact .seq before after

/-- A pattern chosen by what is ahead keeps well-formed trees if every choice does. -/
@[simp] theorem keeps_look {choose : Ahead → Pattern Rule} : Keeps grammar Formed (.look choose) ↔
    ∀ ahead, Keeps grammar Formed (choose ahead) := by
  constructor
  · intro keeps
    cases keeps with
    | look each => exact each
  · exact .look

/-- A choice keeps well-formed trees if the chosen pattern does. -/
@[simp] theorem keeps_ite {c : Prop} [Decidable c] :
    Keeps grammar Formed (if c then first else second) ↔
    if c then Keeps grammar Formed first else Keeps grammar Formed second := by
  split <;> rfl

/-- A repetition keeps well-formed trees just when its body does. -/
@[simp] theorem keeps_many {goes : Ahead → Bool} : Keeps grammar Formed (.many goes body) ↔
    Keeps grammar Formed body := by
  constructor
  · intro keeps
    cases keeps with
    | many item => exact item
  · exact .many

/-- A part keeps well-formed trees just when its body does. -/
@[simp] theorem keeps_part {role : Role} : Keeps grammar Formed (.part role body) ↔
    Keeps grammar Formed body := by
  constructor
  · intro keeps
    cases keeps with
    | part inside => exact inside
  · exact .part

/-- A node of a plain kind keeps well-formed trees just when its body does. -/
@[simp] theorem keeps_node {kind : Kind} (plain : kind.isPlain = true) :
    Keeps grammar Formed (.node kind body) ↔ Keeps grammar Formed body := by
  constructor
  · intro keeps
    cases keeps with
    | node inside good => exact inside
  · exact fun inside => .node inside fun _ children _ _ good =>
      .branch (fits_of_isPlain plain children) good

@[simp] theorem keeps_token {accepts : Lexeme → Bool} {wanted : String} :
    Keeps grammar Formed (.token .token accepts wanted) ↔ True :=
  iff_true_intro (.token fun _ _ => .leaf trivial)

/-- A token with a shape keeps well-formed trees if such tokens fit the kind. -/
theorem keeps_shaped {kind : Kind} {shape : Shape} (fits : ∀ l, l.shape = shape → LeafFits kind l) :
    Keeps grammar Formed (shaped kind shape) :=
  .token fun l accepted => .leaf (fits l (eq_of_beq accepted))

@[simp] theorem keeps_rule (rule : Rule) : Keeps grammar Formed (.rule rule) ↔ True :=
  iff_true_intro (.rule rule)

@[simp] theorem keeps_fail (wanted : String) : Keeps grammar Formed (.fail wanted) ↔ True :=
  iff_true_intro (.fail wanted)

@[simp] theorem keeps_nothing : Keeps grammar Formed .nothing ↔ True := iff_true_intro .nothing

@[simp] theorem keeps_separator : Keeps grammar Formed .separator ↔ True := iff_true_intro .separator

@[simp] theorem keeps_mark (spelling : String) : Keeps grammar Formed (mark spelling) :=
  .token fun _ _ => .leaf trivial

@[simp] theorem keeps_keyword (spelling : String) : Keeps grammar Formed (keyword spelling) :=
  .token fun _ _ => .leaf trivial

@[simp] theorem keeps_anyMark (spellings : List String) :
    Keeps grammar Formed (anyMark spellings) :=
  .token fun _ _ => .leaf trivial

@[simp] theorem keeps_anyKeyword (spellings : List String) :
    Keeps grammar Formed (anyKeyword spellings) :=
  .token fun _ _ => .leaf trivial

@[simp] theorem keeps_name : Keeps grammar Formed name :=
  .token fun _ accepted => .leaf (eq_of_beq accepted)

@[simp] theorem keeps_expression (level : Nat) : Keeps grammar Formed (expression level) :=
  .rule _

/-- A pattern that grows keeps well-formed trees if its start and all its continuations do. -/
theorem keeps_grow {next : Tree → Ahead → Option (Pattern Rule × (Tree → List Child → Tree))}
    (start : Keeps grammar Formed first)
    (enlarges : ∀ {tree ahead continuation combine},
      next tree ahead = some (continuation, combine) → Enlarges tree continuation combine)
    (continues : ∀ {tree ahead continuation combine},
      next tree ahead = some (continuation, combine) → Keeps grammar Formed continuation) :
    Keeps grammar Formed (.grow first next) :=
  .grow start (fun _ _ _ _ more => continues more)
    (fun _ _ _ _ more _ own inside => (enlarges more).formed own inside)
    fun _ _ _ _ more => (enlarges more).lexemes

end

/-- A pattern reads a token first. -/
def Headed (pattern : Pattern Rule) : Prop :=
  ∀ ahead children rest, Reads grammar pattern ahead children rest →
    ∃ role kind l others, children = (role, .leaf kind l) :: others

/-- A token pattern reads a token first. -/
theorem headed_token (kind : Kind) (accepts : Lexeme → Bool) (wanted : String) :
    Headed (.token kind accepts wanted) := by
  intro ahead children rest reads
  obtain ⟨l, -, -, rfl⟩ := reads.token
  exact ⟨_, _, _, _, rfl⟩

/-- A pattern that reads a token first does so with anything behind it. -/
theorem Headed.append {first : Pattern Rule} (headed : Headed first) (second : Pattern Rule) :
    Headed (first ++ second) := by
  intro ahead children rest reads
  obtain ⟨before, middle, after, rfl, readsFirst, -⟩ := reads.seq
  obtain ⟨role, kind, l, others, rfl⟩ := headed _ _ _ readsFirst
  exact ⟨role, kind, l, others ++ after, rfl⟩

@[simp] theorem keeps_anyName : Keeps grammar Formed anyName := by
  have tail : Keeps grammar Formed nameTail := by simp [nameTail]
  refine .look fun ahead => ?_
  split
  · refine .node (by simp [tail]) fun ahead children rest reads inside => ?_
    exact .branch (((headed_token _ _ _).append _).append _ _ _ _ reads) inside
  · split
    · simp [tail, Kind.isPlain]
    · split
      · refine .node (by simp [tail]) fun ahead children rest reads inside => ?_
        exact .branch ((headed_token _ _ _).append _ _ _ _ reads) inside
      · exact keeps_name

@[simp] theorem keeps_variable :
    Keeps grammar Formed (.node .variable (mark "$" ++ name)) := by
  refine .node (by simp) fun ahead children rest reads inside => ?_
  exact .branch ((headed_token _ _ _).append _ _ _ _ reads) inside

/-- The value of an argument comes last, after the name of its parameter. -/
theorem argument_fits {ahead rest : Ahead} {children : List Child}
    (reads : Reads grammar (optional (fun ahead => atWord ahead && atMark ":" (ahead.drop 1))
      (.part .name name ++ mark ":") ++
      (.look fun ahead =>
        if atMark "..." ahead then .node .spread (mark "..." ++ anyExpression)
        else if atMark "&" ahead then .node .clause (mark "&") ++ anyExpression
        else anyExpression)) ahead children rest) : Fits .argument children := by
  obtain ⟨front, middle, value, rfl, readsName, readsValue⟩ := reads.seq
  have names : ∃ named before, front = named ++ before ∧
      (named = [] ∨ ∃ l, named = [(.name, .leaf .name l)]) ∧ ∀ child ∈ before, child.1 = .none := by
    have reads := readsName.look
    split at reads
    · obtain ⟨before, middle, after, rfl, readsWord, readsColon⟩ := reads.seq
      obtain ⟨inner, rfl, readsInner⟩ := readsWord.part
      obtain ⟨word, -, -, rfl⟩ := readsInner.token
      obtain ⟨colon, -, -, rfl⟩ := readsColon.token
      exact ⟨_, _, rfl, .inr ⟨word, rfl⟩, by simp⟩
    · obtain rfl := reads.nothing
      exact ⟨[], [], rfl, .inl rfl, by simp⟩
  have last : ∃ before tree, value = before ++ [(.none, tree)] ∧ tree.kind.isNamed = true ∧
      ∀ child ∈ before, child.1 = .none := by
    have reads := readsValue.look
    repeat' split at reads
    · obtain ⟨inner, rfl, -⟩ := reads.node
      exact ⟨[], _, rfl, rfl, by simp⟩
    · obtain ⟨before, middle, after, rfl, readsMark, readsExpression⟩ := reads.seq
      obtain ⟨inner, rfl, -⟩ := readsMark.node
      obtain ⟨tree, rfl, isNamed⟩ := expression_single readsExpression
      exact ⟨_, tree, rfl, isNamed, by simp⟩
    · obtain ⟨tree, rfl, isNamed⟩ := expression_single reads
      exact ⟨[], tree, rfl, isNamed, by simp⟩
  obtain ⟨named, before, rfl, isName, plain⟩ := names
  obtain ⟨middle, tree, rfl, isNamed, others⟩ := last
  exact ⟨named, before ++ middle, tree, by simp, isName,
    List.forall_mem_append.mpr ⟨plain, others⟩, isNamed⟩

/-- An argument is well-formed, as its value stands last. -/
theorem keeps_argument : Keeps grammar Formed argumentPattern := by
  refine .node ?_ fun ahead children rest reads inside => .branch (argument_fits reads) inside
  simp [anyExpression, optional, Kind.isPlain]

@[simp] theorem keeps_nameTail : Keeps grammar Formed nameTail := by simp [nameTail]

/-- Import declarations are well-formed. -/
theorem keeps_useDeclaration : Keeps grammar Formed useDeclaration := by
  refine .node ?_ fun ahead children rest reads inside => .branch ?_ inside
  · simp [importKind, groupClause, importClause, newName, namespaceName, optional, either, separated,
      Kind.isPlain]
  · exact ((((headed_token _ _ _).append _).append _).append _).append _ _ _ _ reads

theorem keeps_operand : Keeps grammar Formed operandPattern := by
  simp [operandPattern, wordOperator, yielding, optional, either, anyExpression, Kind.isPlain]

theorem keeps_captured : Keeps grammar Formed captured := by
  simp [captured, optional, listed, simpleVariable, Kind.isPlain]

/-- Functions are well-formed. -/
theorem keeps_function : Keeps grammar Formed function := by
  simp [function, optional, either, arrowFunction, closure, returnType, reference, keeps_captured,
    anyExpression, Kind.isPlain]

/-- Texts with interpolations are well-formed. -/
theorem keeps_template : Keeps grammar Formed template := by
  have opening : Keeps grammar Formed (shaped .token .templateOpening) := keeps_shaped fun _ _ => trivial
  have closing : Keeps grammar Formed (shaped .token .templateClosing) := keeps_shaped fun _ _ => trivial
  have text : Keeps grammar Formed (shaped .expression .templateText) := keeps_shaped fun _ _ => trivial
  have number : Keeps grammar Formed (shaped .integer .integer) := keeps_shaped fun _ shape => shape
  refine .node ?_ fun ahead children rest reads inside => .branch ?_ inside
  · simp [templatePart, templateVariable, opening, closing, text, number, optional, anyExpression,
      Kind.isPlain]
  · obtain ⟨before, middle, after, rfl, reads, readsClosing⟩ := reads.seq
    obtain ⟨first, middle, others, rfl, readsOpening, -⟩ := reads.seq
    obtain ⟨l, is, -, rfl⟩ := readsOpening.token
    obtain ⟨l', is', -, rfl⟩ := readsClosing.token
    exact ⟨l, others, l', by simp, eq_of_beq is, eq_of_beq is'⟩

theorem keeps_memberName : Keeps grammar Formed memberName := by
  simp [memberName, anyExpression, simpleVariable]

/-- What follows a primary expression is well-formed. -/
theorem keeps_continuePrimary {tree : Tree} {ahead : Ahead} {continuation : Pattern Rule}
    {combine : Tree → List Child → Tree}
    (continues : continuePrimary tree ahead = some (continuation, combine)) :
    Keeps grammar Formed continuation := by
  unfold continuePrimary at continues
  repeat' split at continues
  all_goals cases continues
  all_goals simp [keeps_memberName, offset, optional, anyExpression]

/-- What follows a class reference is well-formed. -/
theorem keeps_continueReference {tree : Tree} {ahead : Ahead} {continuation : Pattern Rule}
    {combine : Tree → List Child → Tree}
    (continues : continueReference tree ahead = some (continuation, combine)) :
    Keeps grammar Formed continuation := by
  unfold continueReference at continues
  simp only at continues
  repeat' split at continues
  · cases continues
  · exact keeps_continuePrimary continues
  · cases continues

/-- What follows a left operand is well-formed. -/
theorem keeps_continueExpression {level} {tree : Tree} {ahead : Ahead} {continuation : Pattern Rule}
    {combine : Tree → List Child → Tree}
    (continues : continueExpression level tree ahead = some (continuation, combine)) :
    Keeps grammar Formed continuation := by
  unfold continueExpression at continues
  repeat' split at continues
  all_goals cases continues
  all_goals simp [assignment, conditional, optional, operator, anyExpression]

theorem keeps_parenthesized : Keeps grammar Formed parenthesized := by
  simp [parenthesized, anyExpression, Kind.isPlain]

/-- Match expressions are well-formed. -/
theorem keeps_matching : Keeps grammar Formed matching := by
  simp [matching, matchArm, keeps_parenthesized, optional, either, listed, anyExpression,
    Kind.isPlain]

/-- Constructions are well-formed. -/
theorem keeps_construction : Keeps grammar Formed construction := by
  have grows : Keeps grammar Formed
      (.grow (.node .bareConstruction (keyword "new" ++ .rule .classReference)) constructionOf) := by
    refine keeps_grow (by simp [Kind.isPlain]) constructionOf_enlarges ?_
    intro tree ahead continuation combine continues
    unfold constructionOf at continues
    split at continues
    · cases continues
      simp
    · cases continues
  simp [construction, either, grows, anonymousClass, heritage, bases, interfaces, names, optional,
    separated, Kind.isPlain]

theorem keeps_arrayLiteral : Keeps grammar Formed arrayLiteral := by
  simp [arrayLiteral, arrayItems, either, listed, optional, Kind.isPlain]

/-- Atoms are well-formed. -/
theorem keeps_atom : Keeps grammar Formed atomPattern := by
  refine .look fun ahead => ?_
  split
  all_goals first
    | exact keeps_shaped fun _ shape => shape
    | exact keeps_shaped fun _ _ => trivial
    | simp [keeps_template, keeps_function, keeps_parenthesized, keeps_matching,
        keeps_construction, keeps_arrayLiteral, simpleVariable, Kind.isPlain]

theorem keeps_classReference : Keeps grammar Formed classReferencePattern := by
  refine keeps_grow ?_ continueReference_enlarges keeps_continueReference
  simp [keeps_parenthesized, simpleVariable, Kind.isPlain]

/-- Patterns of an assignment are well-formed. -/
theorem keeps_destructuring : Keeps grammar Formed destructuringPattern := by
  have destination : Keeps grammar Formed destination := by
    simp [destination, byReference, Kind.isPlain]
  have item : Keeps grammar Formed destructuringItem := by
    have grows : Keeps grammar Formed (.grow anyExpression continueItem) := by
      refine keeps_grow (keeps_expression 0) continueItem_enlarges ?_
      intro tree ahead continuation combine continues
      unfold continueItem at continues
      repeat' split at continues
      all_goals cases continues
      all_goals simp [destination]
    simp [destructuringItem, destination, grows]
  simp [destructuringPattern, either, separated, item, Kind.isPlain]

/-- Targets of an assignment are well-formed. -/
theorem keeps_target : Keeps grammar Formed targetPattern := by
  refine keeps_grow (keeps_rule _ |>.mpr trivial) ?_ ?_
  · intro tree ahead continuation combine continues
    split at continues
    · cases continues
    · cases continues
      exact enlarges_same "name"
  · intro tree ahead continuation combine continues
    split at continues
    · cases continues
    · cases continues
      simp

/-- Declarations of classes and of their like are well-formed. -/
theorem keeps_declarations : Keeps grammar Formed classDeclaration ∧
    Keeps grammar Formed interfaceDeclaration ∧ Keeps grammar Formed traitDeclaration ∧
      Keeps grammar Formed enumDeclaration := by
  have v : Keeps grammar Formed plainVariable := keeps_variable
  simp [classDeclaration, interfaceDeclaration, traitDeclaration, enumDeclaration, heritage, bases,
    interfaces, names, returnType, braced, enumMember, enumCase, attributes, initial, optional,
    separated, anyExpression, Kind.isPlain]

/-- Declarations behind attributes are well-formed. -/
theorem keeps_attributed : Keeps grammar Formed attributed := by
  obtain ⟨classes, interfaces, traits, enums⟩ := keeps_declarations
  simp [attributed, attributes, classes, interfaces, traits, enums, constants, signature, block,
    reference, returnType, optional, separated, anyExpression, Kind.isPlain]

/-- Statements that begin with a keyword are well-formed. -/
theorem keeps_keywordStatements :
    ∀ entry ∈ keywordStatements, Keeps grammar Formed entry.2 := by
  have v : Keeps grammar Formed plainVariable := keeps_variable
  have statement : Keeps grammar Formed statement := .rule _
  have loop (ending : String) : Keeps grammar Formed (loopBody ending) := by
    simp [loopBody, colonBlock, upTo, statement]
  have condition := keeps_parenthesized
  have value : Keeps grammar Formed loopValue := by
    simp [loopValue, byReference, anyExpression, Kind.isPlain]
  simp [keywordStatements, jump, ifStatement, colonBranches, branches, upTo, statement,
    forStatement, sequence, foreachStatement, switchStatement, switchCase, caseEnd, braced,
    tryStatement, finallyClause, catchClause, declareStatement, exitStatement, unsetStatement,
    constants, block, simpleVariable, v, loop, condition, value, optional, either, listed,
    separated, anyExpression, Kind.isPlain]

/-- Statements are well-formed. -/
theorem keeps_statement : Keeps grammar Formed statementPattern := by
  have v : Keeps grammar Formed plainVariable := keeps_variable
  refine .look fun ahead => ?_
  repeat' split
  · simp [Kind.isPlain]
  · simp [block]
  · simp [jump, optional, anyExpression, Kind.isPlain]
  · exact keeps_useDeclaration
  · simp [namespaceDeclaration, namespaceName, block, either, Kind.isPlain]
  · exact keeps_attributed
  · simp [staticVariables, initial, v, optional, separated, anyExpression, Kind.isPlain]
  · rename_i pattern found
    obtain ⟨l, -, found⟩ := Option.bind_eq_some_iff.mp found
    split at found
    · obtain ⟨before, after, listed, -⟩ := List.lookup_eq_some_iff.mp found
      have keeps := keeps_keywordStatements (l.spelling, pattern) (by rw [listed]; simp)
      simp [keeps, Kind.isPlain]
    · cases found
  · simp [Kind.isPlain]
  · simp [expressionStatement, anyExpression, Kind.isPlain]

/-- Members of a class are well-formed. -/
theorem keeps_member : Keeps grammar Formed memberPattern := by
  have v : Keeps grammar Formed plainVariable := keeps_variable
  simp [memberPattern, attributes, anyModifiers, afterModifiers, constantMember, constants, method,
    signature, property, modifier, v, type, block, initial, reference, returnType, optional, either,
    separated, anyExpression, Kind.isPlain]

/-- Parameters are well-formed. -/
theorem keeps_parameters : Keeps grammar Formed parametersPattern := by
  have v : Keeps grammar Formed plainVariable := keeps_variable
  simp [parametersPattern, parameter, attributes, modifier, v, type, initial, reference, optional,
    listed, anyExpression, Kind.isPlain]

/-- Every rule of the grammar reads well-formed trees. -/
theorem grammar_keeps (rule : Rule) : Keeps grammar Formed (grammar rule) := by
  have v : Keeps grammar Formed plainVariable := keeps_variable
  cases rule with
  | program => simp [grammar, programPattern, statement, shaped, Kind.isPlain]
  | statement => exact keeps_statement
  | block => simp [grammar, braced, statement, Kind.isPlain]
  | classBody => simp [grammar, braced, Kind.isPlain]
  | member => exact keeps_member
  | trait =>
      simp [grammar, traitPattern, braced, adaptation, names, either, optional, separated,
        Kind.isPlain]
  | hooks =>
      simp [grammar, braced, hook, attributes, anyModifiers, modifier, reference, block, optional,
        anyExpression, Kind.isPlain]
  | expression level => exact keeps_grow (.rule _) continueExpression_enlarges keeps_continueExpression
  | operand => exact keeps_operand
  | primary => exact keeps_grow (.rule _) continuePrimary_enlarges keeps_continuePrimary
  | atom => exact keeps_atom
  | «variable» => simp [grammar, variablePattern, simpleVariable, anyExpression, Kind.isPlain]
  | classReference => exact keeps_classReference
  | arguments => simp [grammar, argumentsPattern, optional, listed, Kind.isPlain]
  | argument => exact keeps_argument
  | arrayElement =>
      simp [grammar, arrayElementPattern, byReference, optional, either, anyExpression,
        Kind.isPlain]
  | destructuring => exact keeps_destructuring
  | target => exact keeps_target
  | parameters => exact keeps_parameters
  | type => simp [grammar, typePattern, either, Kind.isPlain]
  | typeAtom => simp [grammar, typeAtomPattern, type, either]
  | attributes => simp [grammar, attributesPattern, attributeItem, optional, listed, Kind.isPlain]

end Untranslated.Php.Grammar

namespace Untranslated.Php

open Grammar

/-- A file is read as the tree of its lexemes. -/
theorem read_eq_ok {tokens : List Token} {tree : Tree} : read tokens = .ok tree ↔
    ∃ role, run grammar (readingDepth (tokens.map (·.lexeme)).length) (.rule .program)
      (tokens.map (·.lexeme)) = .ok ([(role, tree)], []) := by
  unfold read
  simp only
  generalize run grammar _ _ _ = result
  cases result with
  | error failure => simp [bind, Except.bind]
  | ok reading =>
      obtain ⟨children, rest⟩ := reading
      simp only [bind, Except.bind, Except.ok.injEq, Prod.mk.injEq]
      match children, rest with
      | [(role, other)], [] => simp [pure, Except.pure]
      | [], rest | _ :: _ :: _, rest | [_], _ :: _ => simp [failAt]

/-- A file is read as a well-formed tree of a program. -/
theorem read_formed {tokens : List Token} {tree : Tree} (success : read tokens = .ok tree) :
    Formed tree ∧ tree.kind = .program := by
  obtain ⟨role, reads⟩ := read_eq_ok.mp success
  have derives := reads_iff.mp ⟨_, reads⟩
  have keeps : Keeps grammar Formed (.rule .program) := .rule Rule.program
  refine ⟨derives.good .separator (fun _ => .leaf trivial) grammar_keeps keeps (role, tree)
    List.mem_cons_self, ?_⟩
  cases derives with
  | rule inside =>
      obtain ⟨inner, same, -⟩ := Reads.node (reads_iff.mpr inside)
      rw [(Prod.mk.inj (List.cons.inj same).1).2]
      rfl

/-- The leaves of the tree of a file are its tokens. -/
theorem read_lexemes {tokens : List Token} {tree : Tree} (success : read tokens = .ok tree) :
    tree.lexemes = tokens.map (·.lexeme) := by
  obtain ⟨role, reads⟩ := read_eq_ok.mp success
  have derives := reads_iff.mp ⟨_, reads⟩
  have keeps : Keeps grammar Formed (.rule .program) := .rule Rule.program
  have lexemes := derives.lexemes .separator (fun _ => .leaf trivial) grammar_keeps keeps
  simpa [rowLexemes, Task.lexemes] using lexemes

end Untranslated.Php
