/-
This file finds a static text in the tree of a call and in the tree of an array.
-/

import Untranslated.Call.Site
import Untranslated.Php.ReturnedArray
import Untranslated.Proofs.Php.StaticPrograms

namespace Untranslated.Php

open Grammar
open Literal (value?)

/-- The kinds of the nodes that can be call sites. -/
def Kind.isCall (kind : Kind) : Bool :=
  [.functionCall, .staticCall, .memberCall, .nullsafeCall].contains kind

/-- No call stands in a tree, wherever the tree is placed. -/
def Tree.Quiet (tree : Tree) : Prop :=
  ∀ role offset tokens, ∀ inner ∈ (tree.place role offset tokens).node.preorder,
    inner.kind.isCall = false

/-- No call stands in a comment. -/
theorem extra_quiet (extra : Extra) :
    ∀ inner ∈ extra.node.preorder, inner.kind.isCall = false := by
  intro inner inside
  rw [extra_preorder inside]
  cases extra with
  | mk filler start stop => cases filler <;> rfl

/-- No call stands in a child that is an extra or stands for a quiet tree. -/
theorem childOf_quiet {children : List Child} (quiet : ∀ child ∈ children, child.2.Quiet)
    {node : Node} (childOf : ChildOf children node) :
    ∀ inner ∈ node.preorder, inner.kind.isCall = false := by
  cases childOf with
  | extra extra => exact extra_quiet extra
  | child own offset tokens => exact quiet _ own _ offset tokens

/-- Above quiet children only the node itself can be a call. -/
theorem quiet_children {kind : Kind} {children : List Child}
    (quiet : ∀ child ∈ children, child.2.Quiet) (role : Role) (offset : Nat) (tokens : List Token) :
    ∀ inner ∈ ((Tree.branch kind children).place role offset tokens).node.preorder,
      inner = ((Tree.branch kind children).place role offset tokens).node ∨
        inner.kind.isCall = false := by
  intro inner inside
  rcases Node.preorder_cases inside with rfl | ⟨child, member, inside⟩
  · exact .inl rfl
  · have childOf := place_children kind children role offset tokens child member
    exact .inr (childOf_quiet quiet childOf inner inside)

/-- A node of a tree is the tree itself or stands in its first part, if the others are quiet. -/
theorem first_or_quiet {kind : Kind} {role : Role} {first : Tree} {others : List Child}
    (quiet : ∀ child ∈ others, child.2.Quiet) (outer : Role) (offset : Nat) (tokens : List Token) :
    ∀ inner ∈ ((Tree.branch kind ((role, first) :: others)).place outer offset
        tokens).node.preorder,
      inner.kind = kind ∨ inner ∈ (first.place role offset tokens).node.preorder ∨
        inner.kind.isCall = false := by
  intro inner inside
  rcases Node.preorder_cases inside with rfl | ⟨child, member, inside⟩
  · exact .inl (place_kind _ _ _ _)
  · rcases List.mem_cons.mp member with rfl | member
    · exact .inr (.inl inside)
    · have childOf := placeOthers_children others _ _ child member
      exact .inr (.inr (childOf_quiet quiet childOf inner inside))

/-- No call stands in a leaf. -/
theorem quiet_leaf {kind : Kind} (plain : kind.isCall = false) (l : Lexeme) :
    (Tree.leaf kind l).Quiet := by
  intro role offset tokens inner inside
  cases tokens with
  | nil | cons token tokens =>
      rcases Node.preorder_cases inside with rfl | ⟨child, member, inside⟩
      · exact plain
      · cases member

/-- No call stands in a node of another kind, if none stands in its children. -/
theorem quiet_branch {kind : Kind} (plain : kind.isCall = false) {children : List Child}
    (quiet : ∀ child ∈ children, child.2.Quiet) : (Tree.branch kind children).Quiet := by
  intro role offset tokens inner inside
  rcases quiet_children quiet role offset tokens inner inside with rfl | plain'
  · rw [place_kind]
    exact plain
  · exact plain'

theorem quiet_nil : ∀ child ∈ ([] : List Child), child.2.Quiet := List.forall_mem_nil _

/-- No call stands in a row if none stands in its first tree and in the others. -/
theorem quiet_cons {role : Role} {tree : Tree} {others : List Child} (first : tree.Quiet)
    (quiet : ∀ child ∈ others, child.2.Quiet) :
    ∀ child ∈ (role, tree) :: others, child.2.Quiet :=
  List.forall_mem_cons.mpr ⟨first, quiet⟩

theorem quiet_mark (l : Lexeme) : (Tree.leaf .token l).Quiet := quiet_leaf rfl l

mutual

/-- No call stands in an operand of a static text. -/
theorem StaticOperand.quiet : (operand : StaticOperand) → operand.tree.Quiet
  | .literal literal => by
      rw [StaticOperand.tree]
      exact quiet_leaf (by cases literal <;> rfl) _
  | .bracketed inner => by
      rw [StaticOperand.tree]
      exact quiet_branch rfl
        (quiet_cons (quiet_mark _) (quiet_cons inner.quiet (quiet_cons (quiet_mark _) quiet_nil)))

/-- No call stands in a static text. -/
theorem StaticText.quiet : (text : StaticText) → text.tree.Quiet
  | .single operand => by
      rw [StaticText.tree]
      exact operand.quiet
  | .joined first last => by
      rw [StaticText.tree]
      exact quiet_branch rfl
        (quiet_cons first.quiet (quiet_cons (quiet_mark _) (quiet_cons last.quiet quiet_nil)))

end

/-- No call stands in the arguments. -/
theorem argumentsTree_quiet (parts : StaticText) : (argumentsTree parts).Quiet := by
  have argument : (Tree.branch .argument [(.none, parts.tree)]).Quiet :=
    quiet_branch rfl (quiet_cons parts.quiet quiet_nil)
  exact quiet_branch rfl
    (quiet_cons (quiet_mark _) (quiet_cons argument (quiet_cons (quiet_mark _) quiet_nil)))

/-- No call stands in the parts of the call. -/
theorem callParts_quiet (parts : StaticText) :
    ∀ child ∈ ([(.function, .leaf .name functionLexeme), (.arguments, argumentsTree parts)] :
      List Child), child.2.Quiet :=
  quiet_cons (quiet_leaf rfl _) (quiet_cons (argumentsTree_quiet parts) quiet_nil)

/-- The call of the program. -/
def callNode (parts : StaticText) (tokens : List Token) : Node :=
  ((callTree parts).place .none 0 tokens).node

/-- The program has no other call. -/
theorem callNode_only {parts : StaticText} (tokens : List Token) :
    ∀ inner ∈ ((callProgram parts).toNode tokens).preorder, inner.kind.isCall = true →
      inner = callNode parts tokens := by
  intro inner inside call
  have loud : inner.kind.isCall ≠ false := by rw [call]; decide
  have other {kind : Kind} (plain : kind.isCall = false) : inner.kind ≠ kind := by
    rintro rfl
    exact loud plain
  have mark (l : Lexeme) : ∀ child ∈ [((.none, .leaf .token l) : Child)], child.2.Quiet :=
    quiet_cons (quiet_mark l) quiet_nil
  rcases Node.preorder_cases inside with rfl | ⟨child, member, inside⟩
  · cases call
  rw [toNode_eq] at member
  rcases List.mem_append.mp member with member | member
  · obtain ⟨extra, -, rfl⟩ := List.mem_map.mp member
    exact absurd (extra_quiet extra inner inside) loud
  -- The call is the first part of the statement, and the statement that of the program.
  have inProgram := Node.mem_preorder_of_child member inside
  rcases first_or_quiet (mark _) .none 0 tokens inner inProgram with is | inStatement | plain
  · exact absurd is (other rfl)
  · rcases first_or_quiet (mark _) .none 0 tokens inner inStatement with is | inCall | plain
    · exact absurd is (other rfl)
    · have callOrQuiet := quiet_children (callParts_quiet parts) .none 0 tokens inner inCall
      exact callOrQuiet.resolve_right loud
    · exact absurd plain loud
  · exact absurd plain loud

/-- A test of kinds that no extra in front of a part passes takes the part or leaves it out. -/
theorem filter_placeOthers (test : Kind → Bool) {role : Role} {tree : Tree} {offset : Nat}
    {tokens : List Token}
    (none : ∀ extra ∈ (tree.place role offset tokens).lead, test extra.node.kind = false)
    (others : List Child) :
    (placeOthers offset ((role, tree) :: others) tokens).1.filter (test ·.kind) =
      (if test tree.kind then [(tree.place role offset tokens).node] else []) ++
        (placeOthers (tree.place role offset tokens).node.stop others
          (tree.place role offset tokens).rest).1.filter (test ·.kind) := by
  have extras :
      ((tree.place role offset tokens).lead.map Extra.node).filter (test ·.kind) = [] := by
    rw [List.filter_eq_nil_iff]
    intro node member
    obtain ⟨extra, inside, rfl⟩ := List.mem_map.mp member
    rw [none extra inside]
    exact Bool.false_ne_true
  simp only [placeOthers, List.filter_append, extras, List.nil_append, List.filter_cons, place_kind]
  split <;> rfl

/-- The parts of a node are its children that have a name and are no comments. -/
def Kind.isPart (kind : Kind) : Bool := kind != .comment && kind.isNamed

/-- An extra is a comment or a piece of template text. -/
theorem extra_kind (extra : Extra) {kind : Kind} (comment : kind ≠ .comment)
    (markup : kind ≠ .markup) : (extra.node.kind == kind) = false := by
  rw [beq_eq_false_iff_ne]
  cases extra with
  | mk filler start stop =>
      cases filler with
      | lineComment | hashComment | blockComment => exact comment.symm
      | markup => exact markup.symm

theorem parts_isPart (node : Node) : node.parts = node.children.filter (·.kind.isPart) := by
  rw [Node.parts, Node.namedChildren, List.filter_filter]
  rfl

/-- Comments are no parts. -/
theorem extra_noPart {lead : List Extra} (plain : hasMarkup lead = false) :
    ∀ extra ∈ lead, extra.node.kind.isPart = false := by
  intro extra inside
  have noMarkup : ¬(extra.filler == .markup) = true := List.any_eq_false.mp plain extra inside
  cases extra with
  | mk filler start stop =>
      cases filler with
      | lineComment | hashComment | blockComment => rfl
      | markup => exact absurd rfl noMarkup

/-- No extra is taken by the search for the nodes of another kind. -/
theorem filter_only (kind : Kind) (comment : kind ≠ .comment) (markup : kind ≠ .markup)
    {role : Role} {tree : Tree} {offset : Nat} {tokens : List Token} (others : List Child) :
    (placeOthers offset ((role, tree) :: others) tokens).1.filter
        (fun node => node.kind == kind && node.kind.isNamed) =
      (if tree.kind == kind && tree.kind.isNamed then
        [(tree.place role offset tokens).node] else []) ++
        (placeOthers (tree.place role offset tokens).node.stop others
          (tree.place role offset tokens).rest).1.filter
            (fun node => node.kind == kind && node.kind.isNamed) := by
  refine filter_placeOthers (fun other => other == kind && other.isNamed) (fun extra _ => ?_) others
  simp only [extra_kind extra comment markup, Bool.false_and]

theorem isStatic_isPart {kind : Kind} (static : kind.isStatic = true) : kind.isPart = true := by
  cases kind <;> first | rfl | cases static

/-- A static text is of no other kind. -/
theorem isStatic_ne {kind other : Kind} (static : kind.isStatic = true)
    (dynamic : other.isStatic = false) : (kind == other) = false := by
  rw [beq_eq_false_iff_ne]
  rintro rfl
  rw [static] at dynamic
  cases dynamic

/-- The node of a static text behind an opening bracket. -/
def textNode (parts : StaticText) (opening : Token) (rest : List Token) : Node :=
  (parts.tree.place .none opening.stop rest).node

section

variable (parts : StaticText) (opening : Token) (rest : List Token)

/-- The node of a static text is of a static kind. -/
theorem textNode_kind : (textNode parts opening rest).kind.isStatic = true := by
  rw [textNode, place_kind]
  exact parts.tree_kind

/-- The arguments have brackets around the static text. -/
theorem argumentsTree_children (role : Role) (offset : Nat) :
    ((argumentsTree parts).place role offset (opening :: rest)).node.children =
      .mk .token .none (Lexeme.ofMark "(").spelling opening.start opening.stop [] ::
        (placeOthers opening.stop [(.none, .branch .argument [(.none, parts.tree)]),
          (.none, .leaf .token (.ofMark ")"))] rest).1 := rfl

/-- The array has brackets around its element. -/
theorem arrayTree_children (role : Role) (offset : Nat) :
    ((arrayTree parts).place role offset (opening :: rest)).node.children =
      .mk .token .none (Lexeme.ofMark "[").spelling opening.start opening.stop [] ::
        (placeOthers opening.stop [(.none, elementTree parts),
          (.none, .leaf .token (.ofMark "]"))] rest).1 := rfl

/-- The static text is the one argument of the call. -/
theorem argumentsOf_callNode (name : Token) (noLead : opening.lead = []) :
    ∃ argument, Call.argumentsOf (callNode parts (name :: opening :: rest)) = [argument] ∧
      argument.children = [textNode parts opening rest] := by
  refine ⟨((Tree.branch .argument [(.none, parts.tree)]).place .none opening.stop rest).node,
    ?_, rfl⟩
  have children : (callNode parts (name :: opening :: rest)).children =
      .mk .name .function functionLexeme.spelling name.start name.stop [] ::
        (opening.lead.map Extra.node ++
          [((argumentsTree parts).place .arguments name.stop (opening :: rest)).node]) := rfl
  have row : (callNode parts (name :: opening :: rest)).child? .arguments =
      some ((argumentsTree parts).place .arguments name.stop (opening :: rest)).node := by
    rw [Node.child?, children, noLead]
    rfl
  simp only [Call.argumentsOf, row, Node.namedChildren, List.filter_filter, argumentsTree_children]
  rw [List.filter_cons, filter_only .argument (by decide) (by decide),
    filter_only .argument (by decide) (by decide)]
  rfl

/-- The array has one element. -/
theorem elementsOf_arrayTree (role : Role) (offset : Nat) :
    elementsOf ((arrayTree parts).place role offset (opening :: rest)).node =
      [((elementTree parts).place .none opening.stop rest).node] := by
  simp only [elementsOf, Node.namedChildren, List.filter_filter, arrayTree_children]
  rw [List.filter_cons, filter_only .arrayElement (by decide) (by decide),
    filter_only .arrayElement (by decide) (by decide)]
  rfl

end

/-- The parts of the element are the static text and the number behind the arrow. -/
theorem parts_elementTree {parts : StaticText} {source : List Char} {opening : Token}
    {rest : List Token} {count : Nat}
    (twins : Twins source source (parts.lexemes.length + (1 + (1 + count))) rest rest) :
    ∃ value, ((elementTree parts).place .none opening.stop rest).node.parts =
      [textNode parts opening rest, value] ∧ value.kind = .integer := by
  have text := parts.spans.place .none opening.stop opening.stop twins
  have arrow := (spans_mark "=>").place .none (textNode parts opening rest).stop
    (textNode parts opening rest).stop text.rest
  let afterArrow := (Tree.leaf .token (.ofMark "=>")).place .none (textNode parts opening rest).stop
    (parts.tree.place .none opening.stop rest).rest
  have proper : Kind.integer ≠ .comment := by decide
  have number := (spans_leaf proper numberLexeme).place .none afterArrow.node.stop
    afterArrow.node.stop arrow.rest
  have children : ((elementTree parts).place .none opening.stop rest).node.children =
      textNode parts opening rest ::
        (placeOthers (textNode parts opening rest).stop
          [(.none, .leaf .token (.ofMark "=>")), (.none, .leaf .integer numberLexeme)]
          (parts.tree.place .none opening.stop rest).rest).1 := rfl
  have named := isStatic_isPart (textNode_kind parts opening rest)
  simp only [parts_isPart, children]
  rw [List.filter_cons, if_pos named, filter_placeOthers Kind.isPart (extra_noPart arrow.lead),
    filter_placeOthers Kind.isPart (extra_noPart number.lead)]
  exact ⟨_, rfl, place_kind _ _ _ _⟩

/-- The return statement of the program. -/
def returnTree (parts : StaticText) : Tree :=
  .branch .returnStatement
    [(.none, .leaf .token returnLexeme), (.none, arrayTree parts),
      (.none, .leaf .token (.ofMark ";"))]

/-- The first child of a node comes second in the order of its nodes. -/
theorem find?_nodes {node first : Node} {others : List Node} {kind : Kind}
    (children : node.children = first :: others) (outer : node.kind ≠ kind)
    (is : first.kind = kind) : node.nodes.find? (·.kind == kind) = some first := by
  rw [Node.nodes_eq_preorder]
  cases node with
  | mk own role spelling start stop all =>
      cases first with
      | mk kind' role' spelling' start' stop' inner =>
          simp only [Node.children, Node.kind] at children outer is
          subst children is
          simp [Node.preorder, Node.preorders, Node.kind, outer]

/-- The first return statement of the program is its only one. -/
theorem find?_return (parts : StaticText) {first : Token} (noLead : first.lead = [])
    (rest : List Token) :
    ((arrayProgram parts).toNode (first :: rest)).nodes.find? (·.kind == .returnStatement) =
      some ((returnTree parts).place .none 0 (first :: rest)).node := by
  obtain ⟨others, children⟩ : ∃ others, ((arrayProgram parts).toNode (first :: rest)).children =
      first.lead.map Extra.node ++ ((returnTree parts).place .none 0 (first :: rest)).node ::
        others := ⟨_, rfl⟩
  rw [noLead] at children
  have program : ((arrayProgram parts).toNode (first :: rest)).kind ≠ .returnStatement := by
    rw [toNode_kind]
    exact Kind.noConfusion
  exact find?_nodes children program rfl

/-- The program returns its array. -/
theorem returnedArray?_arrayProgram (source : Source) (parts : StaticText) {first opening : Token}
    (noLead : first.lead = []) (noLead' : opening.lead = []) (rest : List Token) :
    Program.returnedArray? ⟨source, (arrayProgram parts).toNode (first :: opening :: rest)⟩ =
      some ((arrayTree parts).place .none first.stop (opening :: rest)).node := by
  obtain ⟨others, children⟩ : ∃ others,
      ((returnTree parts).place .none 0 (first :: opening :: rest)).node.children =
        .mk .token .none returnLexeme.spelling first.start first.stop [] ::
          (opening.lead.map Extra.node ++
            ((arrayTree parts).place .none first.stop (opening :: rest)).node :: others) :=
    ⟨_, rfl⟩
  rw [noLead'] at children
  have value : ((returnTree parts).place .none 0
      (first :: opening :: rest)).node.namedChildren.head? =
        some ((arrayTree parts).place .none first.stop (opening :: rest)).node := by
    rw [Node.namedChildren, children]
    rfl
  simp only [Program.returnedArray?, find?_return parts noLead, bind, Option.bind, value]
  rfl

/-- An array of one element with a static key and a number has that key, if the next index can be
told. -/
theorem keysToDepth_single {source : List Char} {array element text value : Node} {depth : Nat}
    {key : Text} (single : elementsOf array = [element]) (parts : element.parts = [text, value])
    (static : text.kind.isStatic = true) (number : value.kind = .integer)
    (told : value? source text = .ok (some key)) :
    keysToDepth source (depth + 1) [] array = (indexAfter 0 key).map fun _ => [key] := by
  have noInteger : (text.kind == .integer) = false := isStatic_ne static rfl
  have noArray : (value.kind == .array) = false := by rw [number]; rfl
  have written : writtenKey? source text = .ok (some key) := by
    rw [writtenKey?, noInteger, told]
    rfl
  have entry : entryAt source 0 element =
      (indexAfter 0 key).map fun next => (next, some ⟨key, value⟩) := by
    rw [entryAt, parts]
    simp only [written, bind, Except.bind]
    cases indexAfter 0 key <;> rfl
  rw [keysToDepth, entries, single, entriesFrom, entry]
  cases indexAfter 0 key with
  | error e => rfl
  | ok next =>
      have start : dotted [] key = key := rfl
      simp only [Except.map, entriesFrom, List.mapM_cons, List.mapM_nil, noArray, start, bind,
        Except.bind, pure, Except.pure, Bool.false_eq_true, if_false, List.flatten_cons,
        List.flatten_nil, List.append_nil]

/-- The static text is the one key of the returned array. -/
theorem returnedKeys_arrayProgram {source : Source} {parts : StaticText} {first opening : Token}
    (noLead : first.lead = []) (noLead' : opening.lead = []) {rest : List Token} {count : Nat}
    (twins : Twins source.written source.written (parts.lexemes.length + (1 + (1 + count)))
      rest rest)
    {key : Text} (told : value? source.written (textNode parts opening rest) = .ok (some key)) :
    Program.returnedKeys ⟨source, (arrayProgram parts).toNode (first :: opening :: rest)⟩ =
      (indexAfter 0 key).map fun _ => some [key] := by
  let array := ((arrayTree parts).place .none first.stop (opening :: rest)).node
  have single := elementsOf_arrayTree parts opening rest .none first.stop
  obtain ⟨value, pieces, number⟩ := @parts_elementTree parts source.written opening rest count twins
  obtain ⟨depth, positive⟩ : ∃ depth, array.size = depth + 1 :=
    ⟨_, (Nat.succ_pred_eq_of_pos (Node.sizePositive _)).symm⟩
  have keys : keysToDepth source.written (depth + 1) [] array =
      (indexAfter 0 key).map fun _ => [key] :=
    keysToDepth_single single pieces (textNode_kind parts opening rest) number told
  have once : Text.unique [key] = [key] := rfl
  simp only [Program.returnedKeys, returnedArray?_arrayProgram source parts noLead noLead' rest]
  rw [positive, keys]
  cases indexAfter 0 key with
  | error e => rfl
  | ok next => simp [Except.map, bind, Except.bind, pure, Except.pure, once]

end Untranslated.Php
