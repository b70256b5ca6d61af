/-
This file proves that calls are found whatever the case of the ASCII letters in names is, in the
text and in the targets.
-/

import Untranslated.Proofs.Call.Findings
import Untranslated.Proofs.Php.CaselessImports
import Untranslated.Proofs.Results

namespace Untranslated.Php

open Literal (EscapeError value?)
open Text (SameLetters)

/-- The nodes whose text is a name or imports names. -/
def Kind.isNaming (kind : Kind) : Bool :=
  [.name, .qualifiedName, .variable, .useDeclaration].contains kind

/-- The nodes whose text is a quoted text. -/
def Kind.isLiteral (kind : Kind) : Bool :=
  [.singleQuoted, .doubleQuoted, .nowdoc, .heredoc].contains kind

/-- A tree stands in two texts where names differ in the case of ASCII letters at most, and quoted
texts are the same. No other text of a node counts. -/
structure Node.Recased (source other : List Char) (root : Node) : Prop where
  names : ∀ node ∈ root.preorder, node.kind.isNaming = true →
    SameLetters (node.text source) (node.text other)
  literals : ∀ node ∈ root.preorder, node.kind.isLiteral = true →
    node.text source = node.text other

/-- Programs have the same tree, and differ in the case of names at most. -/
structure Program.Recased (program other : Program) : Prop where
  root : other.root = program.root
  texts : program.root.Recased program.source.written other.source.written

section

variable {source other : List Char} {node : Node}

/-- Each node of a tree stands in the two texts as the tree does. -/
theorem Node.Recased.inside {inner : Node} (recased : node.Recased source other)
    (inside : inner ∈ node.preorder) : inner.Recased source other where
  names last member := recased.names last (Node.mem_preorder_trans inside member)
  literals last member := recased.literals last (Node.mem_preorder_trans inside member)

/-- A child stands in the two texts as its parent does. -/
theorem Node.Recased.child {child : Node} (recased : node.Recased source other)
    (member : child ∈ node.children) : child.Recased source other :=
  recased.inside (Node.mem_preorder_of_child member child.self_mem_preorder)

/-- A child with a role stands in the two texts as its parent does. -/
theorem Node.Recased.child? {child : Node} {role : Role} (recased : node.Recased source other)
    (found : node.child? role = some child) : child.Recased source other :=
  recased.child (List.mem_of_find?_eq_some found)

/-- A named child stands in the two texts as its parent does. -/
theorem Node.Recased.named {child : Node} (recased : node.Recased source other)
    (member : child ∈ node.namedChildren) : child.Recased source other :=
  recased.child (List.mem_filter.mp member).1

/-- An expression stands for the same text. -/
theorem Node.Recased.value? (recased : node.Recased source other) :
    value? source node = value? other node := by
  induction node using Node.bySize with
  | step node inductionHypothesis =>
      have inside {child : Node} (smaller : child.size < node.size)
          (recased : child.Recased source other) :
          Literal.value? source child = Literal.value? other child :=
        inductionHypothesis child smaller recased
      have literal (is : node.kind.isLiteral = true) : node.text source = node.text other :=
        recased.literals node node.self_mem_preorder is
      cases is : node.kind with
      | parenthesized =>
          rw [value?_parenthesized source is, value?_parenthesized other is]
          match parts : node.parts with
          | [] | _ :: _ :: _ => rfl
          | [inner] =>
              have part : inner ∈ node.parts := by simp [parts]
              exact inside (Node.sizeOfPart part) (recased.named (List.mem_filter.mp part).1)
      | binary =>
          have side (role : Role) : (node.child? role).map (Literal.value? source) =
              (node.child? role).map (Literal.value? other) := by
            cases found : node.child? role with
            | none => rfl
            | some child =>
                exact congrArg some (inside (Node.sizeOfChild found) (recased.child? found))
          rw [value?_binary source is, value?_binary other is, side, side]
      | singleQuoted => simp only [Literal.value?, is, literal (by rw [is]; rfl)]
      | doubleQuoted => simp only [Literal.value?, is, literal (by rw [is]; rfl)]
      | nowdoc => simp only [Literal.value?, is, literal (by rw [is]; rfl)]
      | heredoc => simp only [Literal.value?, is, literal (by rw [is]; rfl)]
      | _ => rw [Literal.value?, Literal.value?, is]

end

/-- A name of a node is the same in two texts up to case, and a quoted text is just the same. -/
def Node.isRecased (source other : List Char) (node : Node) : Bool :=
  (!node.kind.isNaming || (node.text source).small == (node.text other).small) &&
    (!node.kind.isLiteral || node.text source == node.text other)

/-- Texts with the same tokens have the same tree. -/
theorem parse_recased {text other : List Char} {path : Option Text} {program : Program}
    (same : tokens (mask other) = tokens (mask text)) (parsed : parse text path = .ok program)
    (recased : program.root.preorder.all (Node.isRecased text other) = true) :
    ∃ program', parse other path = .ok program' ∧ program.Recased program' := by
  unfold parse at parsed ⊢
  simp only [Source.ofChars] at parsed ⊢
  rw [same]
  cases reading : read (tokens (mask text)) with
  | error e =>
      rw [reading] at parsed
      cases parsed
  | ok tree =>
      rw [reading] at parsed
      cases parsed
      have each (node : Node) (inside : node ∈ (tree.toNode (tokens (mask text))).preorder) :=
        List.all_eq_true.mp recased node inside
      simp only [Node.isRecased, Bool.and_eq_true, Bool.or_eq_true, Bool.not_eq_true',
        beq_iff_eq] at each
      refine ⟨_, rfl, rfl, fun node inside is => ?_, fun node inside is => ?_⟩
      · exact (each node inside).1.resolve_left (by simp [is])
      · exact (each node inside).2.resolve_left (by simp [is])

end Untranslated.Php

namespace Untranslated.Call

open Php (Aliases AliasTable Node Program Role)
open Php.Literal (EscapeError value?)
open Text (SameLetters)

/-- Names that are the same up to the case of ASCII letters. -/
def SameNames (names others : List Text) : Prop :=
  ∀ t, t ∈ names.map Text.small ↔ t ∈ others.map Text.small

/-- A pair with its ASCII letters in lower case. -/
def smallPair (pair : Text × Text) : Text × Text := (pair.1.small, pair.2.small)

/-- Pairs that are the same up to the case of ASCII letters. -/
def SamePairs (pairs others : List (Text × Text)) : Prop :=
  ∀ pair, pair ∈ pairs.map smallPair ↔ pair ∈ others.map smallPair

/-- Targets that call for the same. -/
structure SameTargets (targets others : Targets) : Prop where
  functions : ∀ t, t ∈ targets.functions ↔ t ∈ others.functions
  statics : ∀ pair, pair ∈ targets.statics ↔ pair ∈ others.statics
  methods : ∀ pair, pair ∈ targets.methods ↔ pair ∈ others.methods

theorem functionName_small (name : Text) : functionName name.small = functionName name := by
  rw [functionName, functionName, Php.shortName_small, Text.lower_small]

theorem pairName_small (pair : Text × Text) : pairName (smallPair pair) = pairName pair := by
  simp only [pairName, smallPair, ownerName, Php.shortName_small, Text.lower_small]

/-- What is made alike of a value and of its small form is made of the same values. -/
theorem mem_unique_map {A B : Type} [DecidableEq B] {f : A → B} {shrink : A → A}
    (caseless : ∀ a, f (shrink a) = f a) {values others : List A}
    (same : ∀ a, a ∈ values.map shrink ↔ a ∈ others.map shrink) (b : B) :
    b ∈ Text.unique (values.map f) ↔ b ∈ Text.unique (others.map f) := by
  have through (values : List A) : values.map f = (values.map shrink).map f := by
    rw [List.map_map]
    exact List.map_congr_left fun a _ => (caseless a).symm
  rw [Text.uniqueMember, Text.uniqueMember, through, through others, List.mem_map, List.mem_map]
  simp only [same]

/-- Names that are the same up to case make targets that call for the same. -/
theorem sameTargets_ofNames {functions functions' : List Text}
    {statics statics' methods methods' : List (Text × Text)}
    (sameFunctions : SameNames functions functions') (sameStatics : SamePairs statics statics')
    (sameMethods : SamePairs methods methods') :
    SameTargets (.ofNames functions statics methods) (.ofNames functions' statics' methods') where
  functions := mem_unique_map functionName_small sameFunctions
  statics := mem_unique_map pairName_small sameStatics
  methods := mem_unique_map pairName_small sameMethods

/-- Two readings of a name come to the same up to the case of ASCII letters. -/
inductive SameFound : Option Text → Option Text → Prop where
  | none : SameFound none none
  | some {s t : Text} (same : SameLetters s t) : SameFound (some s) (some t)

/-- The same, where reading may fail. -/
inductive SameReading :
    Except EscapeError (Option Text) → Except EscapeError (Option Text) → Prop where
  | error (e : EscapeError) : SameReading (.error e) (.error e)
  | ok {found other : Option Text} (same : SameFound found other) :
      SameReading (.ok found) (.ok other)

theorem SameReading.refl (reading : Except EscapeError (Option Text)) :
    SameReading reading reading := by
  match reading with
  | .error e => exact .error e
  | .ok none => exact .ok .none
  | .ok (some t) => exact .ok (.some rfl)

/-- Tables and names that are the same up to case resolve to the same up to case. -/
theorem resolve_same {table table' : AliasTable} (tables : table.small = table'.small)
    {name name' : Text} (names : SameLetters name name') :
    SameLetters (table.resolve name) (table'.resolve name') := by
  rw [SameLetters, ← AliasTable.resolve_small, tables, names, AliasTable.resolve_small]

section

variable {source other : List Char} {node : Node} {aliases aliases' : Aliases}
  {targets targets' : Targets}

/-- A name is read the same up to case from either text. -/
theorem plainName?_same {found : Option Node}
    (recased : ∀ name, found = some name → name.Recased source other) :
    SameFound (plainName? source found) (plainName? other found) := by
  cases found with
  | none => exact .none
  | some name =>
      simp only [plainName?]
      split
      · next plain =>
        have naming : name.kind.isNaming = true := by
          rcases Bool.or_eq_true_iff.mp plain with is | is <;> rw [eq_of_beq is] <;> rfl
        exact .some ((recased name rfl).names name name.self_mem_preorder naming)
      · exact .none

theorem child?_same (recased : node.Recased source other) (role : Role) :
    SameFound (plainName? source (node.child? role)) (plainName? other (node.child? role)) :=
  plainName?_same fun _ found => recased.child? found

/-- A called function is the same up to case in either text. -/
theorem functionLabel?_same (sameAliases : aliases.small = aliases'.small)
    (same : SameTargets targets targets') (recased : node.Recased source other) :
    SameFound (functionLabel? source targets aliases node)
      (functionLabel? other targets' aliases' node) := by
  have name := child?_same recased .function
  unfold functionLabel?
  generalize plainName? source (node.child? .function) = found at name ⊢
  generalize plainName? other (node.child? .function) = found' at name ⊢
  cases name with
  | none => exact .none
  | some names =>
      have resolved := resolve_same (congrArg Aliases.functions sameAliases) names
      simp only [Option.bind_eq_bind, Option.bind_some, List.contains_iff_mem, resolved.lower,
        same.functions]
      split
      · exact .some resolved
      · exact .none

/-- Texts with the same letters may be joined. -/
theorem SameLetters.append {s t s' t' : Text} (first : SameLetters s t)
    (second : SameLetters s' t') : SameLetters (s ++ s') (t ++ t') := by
  rw [SameLetters, Text.small_append, Text.small_append, first, second]

/-- A called static method is the same up to case in either text. -/
theorem staticLabel?_same (sameAliases : aliases.small = aliases'.small)
    (same : SameTargets targets targets') (recased : node.Recased source other) :
    SameFound (staticLabel? source targets aliases node)
      (staticLabel? other targets' aliases' node) := by
  have scope := child?_same recased .scope
  have name := child?_same recased .name
  unfold staticLabel?
  generalize plainName? source (node.child? .scope) = owned at scope ⊢
  generalize plainName? other (node.child? .scope) = owned' at scope ⊢
  generalize plainName? source (node.child? .name) = named at name ⊢
  generalize plainName? other (node.child? .name) = named' at name ⊢
  cases scope with
  | none => exact .none
  | some scopes =>
      cases name with
      | none => exact .none
      | some names =>
          have resolved := resolve_same (congrArg Aliases.classes sameAliases) scopes
          simp only [Option.bind_eq_bind, Option.bind_some, List.contains_iff_mem, resolved.lower,
            names.lower, same.statics]
          split
          · exact .some (SameLetters.append (SameLetters.append resolved rfl) names)
          · exact .none

theorem isContainer_same {s t : Text} (same : SameLetters s t) : isContainer s = isContainer t := by
  rw [isContainer, isContainer, same.lower]

/-- A container is asked for the same service in either text. -/
theorem serviceName?_same (sameAliases : aliases.small = aliases'.small)
    (recased : node.Recased source other) :
    SameReading (serviceName? source aliases node) (serviceName? other aliases' node) := by
  have name := child?_same recased .function
  unfold serviceName?
  generalize plainName? source (node.child? .function) = found at name ⊢
  generalize plainName? other (node.child? .function) = found' at name ⊢
  cases name with
  | none => exact .ok .none
  | some names =>
      have resolved := resolve_same (congrArg Aliases.functions sameAliases) names
      simp only [isContainer_same resolved]
      split
      · exact .ok .none
      · split
        · exact .ok .none
        · next argument found =>
          obtain ⟨first, head, last⟩ := Option.bind_eq_some_iff.mp found
          have within := (mem_argumentsOf (List.mem_of_head? head)).1
          have value := ((recased.inside within).named (List.mem_of_getLast? last)).value?
          rw [value]
          exact .refl _

/-- The object of a call has one name up to the case of ASCII letters. -/
theorem receiver?_same (sameAliases : aliases.small = aliases'.small)
    (recased : node.Recased source other) :
    SameReading (receiver? source aliases node) (receiver? other aliases' node) := by
  induction node using Node.bySize with
  | step node inductionHypothesis =>
      cases is : node.kind with
      | parenthesized =>
          rw [receiver?_parenthesized source aliases is, receiver?_parenthesized other aliases' is]
          cases found : node.namedChildren.getLast? with
          | none => exact .ok .none
          | some inner =>
              have member := List.mem_of_getLast? found
              exact inductionHypothesis _ (Node.sizeOfNamed member) (recased.named member)
      | «variable» =>
          rw [receiver?, receiver?, is]
          have names := recased.names node node.self_mem_preorder (by rw [is]; rfl)
          have dollar : Caseless (CodePoint.is · '$') := Php.caseless_is (by decide)
          refine .ok (.some ?_)
          rw [SameLetters, ← Text.small_dropWhile _ dollar, names, Text.small_dropWhile _ dollar]
      | member =>
          rw [receiver?, receiver?, is]
          exact .ok (child?_same recased .name)
      | nullsafeMember =>
          rw [receiver?, receiver?, is]
          exact .ok (child?_same recased .name)
      | functionCall =>
          rw [receiver?, receiver?, is]
          exact serviceName?_same sameAliases recased
      | _ =>
          rw [receiver?, receiver?, is]
          exact .ok .none

/-- A called method is the same up to case in either text. -/
theorem methodLabel?_same (sameAliases : aliases.small = aliases'.small)
    (same : SameTargets targets targets') (recased : node.Recased source other) :
    SameReading (methodLabel? source targets aliases node)
      (methodLabel? other targets' aliases' node) := by
  have name := child?_same recased .name
  unfold methodLabel?
  generalize plainName? source (node.child? .name) = named at name ⊢
  generalize plainName? other (node.child? .name) = named' at name ⊢
  cases found : node.child? .object with
  | none => cases name <;> exact .ok .none
  | some object =>
      have reading := receiver?_same sameAliases (recased.child? found)
      simp only
      generalize receiver? source aliases object = read at reading ⊢
      generalize receiver? other aliases' object = read' at reading ⊢
      cases reading with
      | error e => exact .error e
      | ok receivers =>
          cases name with
          | none => cases receivers <;> exact .ok .none
          | some names =>
              cases receivers with
              | none => exact .ok .none
              | some receivers =>
                  simp only [bind, Except.bind, List.contains_iff_mem, receivers.lower,
                    names.lower, same.methods]
                  split
                  · exact .ok (.some (SameLetters.append (SameLetters.append receivers rfl) names))
                  · exact .ok .none

/-- A call has the same label up to case in either text. -/
theorem label?_same (sameAliases : aliases.small = aliases'.small)
    (same : SameTargets targets targets') (recased : node.Recased source other) :
    SameReading (label? source targets aliases node) (label? other targets' aliases' node) := by
  unfold label?
  split
  · exact .ok (functionLabel?_same sameAliases same recased)
  · exact .ok (staticLabel?_same sameAliases same recased)
  · exact methodLabel?_same sameAliases same recased
  · exact methodLabel?_same sameAliases same recased
  · exact .ok .none

end

/-- What stays of a call site if the case of its label and its place are left out. -/
def Site.caseless (site : Site) : Node × Text × List Node :=
  (site.node, site.label.small, site.arguments)

section

variable {program other : Program} {targets targets' : Targets}

/-- The aliases of two programs are the same up to case. -/
theorem aliases_same (recased : program.Recased other) :
    program.aliases.small = other.aliases.small := by
  have imports : program.imports.map Php.Import.small = other.imports.map Php.Import.small := by
    rw [Program.imports, Program.imports, recased.root, List.map_flatMap, List.map_flatMap]
    refine List.flatMap_congr fun node member => ?_
    obtain ⟨inside, is⟩ := List.mem_filter.mp member
    rw [Node.nodes_eq_preorder] at inside
    have names := recased.texts.names node inside (by rw [eq_of_beq is]; rfl)
    rw [← Php.importsOf_small, ← Php.importsOf_small, names]
  have none : (⟨[], []⟩ : Aliases).small = ⟨[], []⟩ := rfl
  rw [Program.aliases, Program.aliases, ← Aliases.addAll_small, ← Aliases.addAll_small, imports]

/-- At each node the same call is found up to case, or the same failure. -/
theorem siteAt?_same (recased : program.Recased other) (same : SameTargets targets targets')
    {node : Node} (inside : node ∈ program.root.nodes) :
    (siteAt? program targets program.aliases node).map (Option.map Site.caseless) =
      (siteAt? other targets' other.aliases node).map (Option.map Site.caseless) := by
  rw [Node.nodes_eq_preorder] at inside
  have label := label?_same (aliases_same recased) same (recased.texts.inside inside)
  unfold siteAt?
  generalize label? program.source.written targets program.aliases node = read at label ⊢
  generalize label? other.source.written targets' other.aliases node = read' at label ⊢
  cases label with
  | error e => rfl
  | ok found =>
      cases found with
      | none => rfl
      | some letters =>
          exact congrArg (fun label => Except.ok (some (node, label, argumentsOf node))) letters

/-- The sites without their cases are those of the nodes, one by one. -/
theorem sites_eq (program : Program) (targets : Targets) :
    (sites program targets).map (List.map Site.caseless) =
      (program.root.nodes.mapM (siteAt? program targets program.aliases)).map
        (fun found => found.reduceOption.map Site.caseless) := by
  rw [sites]
  cases program.root.nodes.mapM (siteAt? program targets program.aliases) <;> rfl

/-- Whatever the case of the ASCII letters in names and in the targets is, calls are found at the same
nodes, in the same order and with the same labels up to case, and the search fails alike. -/
theorem sites_caseless (recased : program.Recased other) {functions functions' : List Text}
    {statics statics' methods methods' : List (Text × Text)}
    (sameFunctions : SameNames functions functions') (sameStatics : SamePairs statics statics')
    (sameMethods : SamePairs methods methods') :
    let targets := Targets.ofNames functions statics methods
    let targets' := Targets.ofNames functions' statics' methods'
    (∀ node ∈ program.root.nodes,
      (siteAt? program targets program.aliases node).map (Option.map Site.caseless) =
        (siteAt? other targets' other.aliases node).map (Option.map Site.caseless)) ∧
      (sites program targets).map (List.map Site.caseless) =
        (sites other targets').map (List.map Site.caseless) := by
  have same := sameTargets_ofNames sameFunctions sameStatics sameMethods
  refine ⟨fun node => siteAt?_same recased same, ?_⟩
  rw [sites_eq, sites_eq, recased.root]
  exact mapM_same fun node => siteAt?_same recased same

end

/-- A file with an alias, a call by the alias and a call of a method. -/
def plainSpelling : List Char :=
  "<?php use function x\\trans as tr; tr('a'); ($translator)->get('b');".toList

/-- The same file with capitals in the names and in the declaration. -/
def looseSpelling : List Char :=
  "<?php USE Function X\\Trans AS TR; Tr('a'); ($Translator)->GET('b');".toList

/-- Both spellings have the same calls, though their names differ in case. -/
theorem sites_caseless_spellings :
    ∃ program other, Php.parse plainSpelling none = .ok program ∧
      Php.parse looseSpelling none = .ok other ∧ program.Recased other ∧
      SameNames ["Trans"] ["tRANS"] ∧ SamePairs [] [] ∧
      SamePairs [("translator", "Get")] [("Translator", "gET")] ∧
      (sites program (.ofNames ["Trans"] [] [("translator", "Get")])).map
          (List.map Site.caseless) =
        (sites other (.ofNames ["tRANS"] [] [("Translator", "gET")])).map
          (List.map Site.caseless) ∧
      (sites other (.ofNames ["tRANS"] [] [("Translator", "gET")])).toOption.map
        (List.map Site.label) = some [Text.ofString "Trans", "Translator->GET"] := by
  have tokens : Php.tokens (Php.mask looseSpelling) = Php.tokens (Php.mask plainSpelling) := by
    decide +kernel
  have spelled : (Php.parse plainSpelling none).toOption.any (fun program =>
      program.root.preorder.all (Node.isRecased plainSpelling looseSpelling)) = true := by
    decide +kernel
  cases parsed : Php.parse plainSpelling none with
  | error e => simp [parsed, Except.toOption] at spelled
  | ok program =>
      have each :
          program.root.preorder.all (Node.isRecased plainSpelling looseSpelling) = true := by
        simpa [parsed, Except.toOption] using spelled
      obtain ⟨other, parsed', recased⟩ := Php.parse_recased tokens parsed each
      have functions : SameNames ["Trans"] ["tRANS"] := fun t =>
        iff_of_eq (congrArg (t ∈ ·) (by decide))
      have none : SamePairs [] [] := fun _ => Iff.rfl
      have methods : SamePairs [("translator", "Get")] [("Translator", "gET")] := fun pair =>
        iff_of_eq (congrArg (pair ∈ ·) (by decide))
      have labels : ((Php.parse looseSpelling Option.none).toOption.bind fun other =>
          (sites other (.ofNames ["tRANS"] [] [("Translator", "gET")])).toOption.map
            (List.map Site.label)) = some [Text.ofString "Trans", "Translator->GET"] := by
        decide +kernel
      refine ⟨program, other, rfl, parsed', recased, functions, none, methods,
        (sites_caseless recased functions none methods).2, ?_⟩
      simpa [parsed', Except.toOption] using labels

end Untranslated.Call
