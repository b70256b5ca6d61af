/-
This file defines the outline of a node, which leaves out places and comments.
Two nodes with the same outline stand for the same text, wherever they are.
-/

import Untranslated.Php.Literal.Value

namespace Untranslated.Php

open Literal (EscapeError value? isConcatenation)

/-- The kinds of nodes whose text is looked at. -/
def Kind.isTextual (kind : Kind) : Bool :=
  [.name, .qualifiedName, .variable, .useDeclaration, .singleQuoted, .doubleQuoted, .heredoc,
    .nowdoc, .integer].contains kind

/-- A comment is a node without a part to play and without children. -/
def Node.isComment (node : Node) : Bool :=
  node.kind == .comment && node.role == .none && node.children.isEmpty

/-- A node without its place. The text stays where it is looked at. -/
inductive Outline where
  | mk (kind : Kind) (role : Role) (spelling : String) (text : Option Text)
    (children : List Outline)

namespace Node

/-- The text of a node, if it is looked at. -/
def textOf? (source : List Char) (node : Node) : Option Text :=
  if node.kind.isTextual then some (node.text source) else none

mutual

/-- The outline of a node. -/
def outline (source : List Char) : Node → Outline
  | .mk kind role spelling start stop children =>
    .mk kind role spelling (textOf? source (.mk kind role spelling start stop children))
      (outlines source children)

/-- The outlines of nodes without the comments among them. -/
def outlines (source : List Char) : List Node → List Outline
  | [] => []
  | node :: rest =>
    if node.isComment then outlines source rest else node.outline source :: outlines source rest

end

/-- The outlines of nodes are those without the comments. -/
theorem outlines_eq (source : List Char) (nodes : List Node) :
    outlines source nodes = (nodes.filter (!·.isComment)).map (outline source) := by
  induction nodes with
  | nil => rfl
  | cons node rest inductionHypothesis =>
      rw [outlines, inductionHypothesis]
      cases comment : node.isComment <;> simp [comment]

/-- Two rows of nodes have their outlines in a row. -/
theorem outlines_append (source : List Char) (first second : List Node) :
    outlines source (first ++ second) = outlines source first ++ outlines source second := by
  rw [outlines_eq, outlines_eq, outlines_eq, List.filter_append, List.map_append]

end Node

/-- Two nodes of two sources have the same outline. -/
def Alike (source other : List Char) (node twin : Node) : Prop :=
  node.outline source = twin.outline other

section

variable {source other : List Char} {node twin : Node}

/-- Nodes have the same outline just when they agree in what is looked at. -/
theorem alike_iff : Alike source other node twin ↔
    node.kind = twin.kind ∧ node.role = twin.role ∧ node.spelling = twin.spelling ∧
      node.textOf? source = twin.textOf? other ∧
      Node.outlines source node.children = Node.outlines other twin.children := by
  cases node
  cases twin
  exact Iff.of_eq (Outline.mk.injEq ..)

theorem Alike.kind (alike : Alike source other node twin) : node.kind = twin.kind :=
  (alike_iff.mp alike).1

theorem Alike.role (alike : Alike source other node twin) : node.role = twin.role :=
  (alike_iff.mp alike).2.1

theorem Alike.spelling (alike : Alike source other node twin) : node.spelling = twin.spelling :=
  (alike_iff.mp alike).2.2.1

/-- Nodes of one outline have one text, if it is looked at. -/
theorem Alike.text (alike : Alike source other node twin) (textual : node.kind.isTextual = true) :
    node.text source = twin.text other := by
  have same := (alike_iff.mp alike).2.2.2.1
  rw [Node.textOf?, Node.textOf?, ← alike.kind, if_pos textual, if_pos textual] at same
  exact Option.some.inj same

/-- Nodes of one outline have alike children, except for comments. -/
theorem Alike.children (alike : Alike source other node twin) :
    (node.children.filter (!·.isComment)).map (Node.outline source) =
      (twin.children.filter (!·.isComment)).map (Node.outline other) := by
  rw [← Node.outlines_eq, ← Node.outlines_eq]
  exact (alike_iff.mp alike).2.2.2.2

/-- A test that sees kinds and roles alone picks the same children. -/
theorem alike_filter {test : Node → Bool} {nodes twins : List Node}
    (sees : ∀ node twin, Alike source other node twin → test node = test twin)
    (same : nodes.map (Node.outline source) = twins.map (Node.outline other)) :
    (nodes.filter test).map (Node.outline source) =
      (twins.filter test).map (Node.outline other) := by
  induction nodes generalizing twins with
  | nil =>
      cases twins with
      | nil => rfl
      | cons twin others => simp at same
  | cons node rest inductionHypothesis =>
      cases twins with
      | nil => simp at same
      | cons twin others =>
          rw [List.map_cons, List.map_cons, List.cons.injEq] at same
          have picked := sees node twin same.1
          cases kept : test twin with
          | false =>
              rw [List.filter_cons_of_neg (by simp [picked, kept]),
                List.filter_cons_of_neg (by simp [kept])]
              exact inductionHypothesis same.2
          | true =>
              rw [List.filter_cons_of_pos (by simp [picked, kept]),
                List.filter_cons_of_pos kept, List.map_cons, List.map_cons, same.1,
                inductionHypothesis same.2]

/-- Nodes of one outline are both there or both missing. -/
inductive AlikeOption (source other : List Char) : Option Node → Option Node → Prop where
  | none : AlikeOption source other none none
  | some {node twin : Node} (alike : Alike source other node twin) :
      AlikeOption source other (some node) (some twin)

/-- Nodes that may be missing are alike just when their outlines are equal. -/
theorem alikeOption_iff {found other' : Option Node} : AlikeOption source other found other' ↔
    found.map (Node.outline source) = other'.map (Node.outline other) := by
  constructor
  · intro alike
    cases alike with
    | none => rfl
    | some alike => exact congrArg some alike
  · intro same
    cases found <;> cases other' <;> simp at same
    · exact .none
    · exact .some same

/-- The first nodes of alike rows are alike. -/
theorem alike_head? {nodes twins : List Node}
    (same : nodes.map (Node.outline source) = twins.map (Node.outline other)) :
    AlikeOption source other nodes.head? twins.head? := by
  rw [alikeOption_iff, ← List.head?_map, same, List.head?_map]

/-- The last nodes of alike rows are alike. -/
theorem alike_getLast? {nodes twins : List Node}
    (same : nodes.map (Node.outline source) = twins.map (Node.outline other)) :
    AlikeOption source other nodes.getLast? twins.getLast? := by
  rw [alikeOption_iff, ← List.getLast?_map, same, List.getLast?_map]

/-- A child with a part to play is no comment. -/
theorem Alike.child? (alike : Alike source other node twin) {role : Role} (part : role ≠ .none) :
    AlikeOption source other (node.child? role) (twin.child? role) := by
  have plays (node : Node) :
      node.child? role = ((node.children.filter (!·.isComment)).filter (·.role == role)).head? := by
    rw [List.head?_filter, List.find?_filter, Node.child?]
    congr 1
    funext child
    by_cases plays : child.role = role
    · have noComment : child.isComment = false := by simp [Node.isComment, plays, part]
      simp [plays, noComment]
    · simp [plays]
  rw [plays, plays]
  exact alike_head? (alike_filter (fun _ _ same => by rw [same.role]) alike.children)

/-- The parts of a node are children without the comments. -/
theorem parts_eq (node : Node) : node.parts =
    (node.children.filter (!·.isComment)).filter
      (fun child => child.kind.isNamed && child.kind != .comment) := by
  rw [Node.parts, Node.namedChildren, List.filter_filter, List.filter_filter]
  refine List.filter_congr fun child _ => ?_
  by_cases comment : child.kind = .comment
  · simp [comment]
  · have noComment : child.isComment = false := by simp [Node.isComment, comment]
    simp [noComment, Bool.and_comm]

/-- Nodes of one outline have alike parts. -/
theorem Alike.parts (alike : Alike source other node twin) :
    node.parts.map (Node.outline source) = twin.parts.map (Node.outline other) := by
  rw [parts_eq, parts_eq]
  exact alike_filter (fun _ _ same => by rw [same.kind]) alike.children

/-- Nodes of one outline have alike children of each kind, except for comments. -/
theorem Alike.ofKind (alike : Alike source other node twin) {kind : Kind} (own : kind ≠ .comment) :
    (node.namedChildren.filter (·.kind == kind)).map (Node.outline source) =
      (twin.namedChildren.filter (·.kind == kind)).map (Node.outline other) := by
  have proper (node : Node) : node.namedChildren.filter (·.kind == kind) =
      (node.children.filter (!·.isComment)).filter
        (fun child => child.kind.isNamed && child.kind == kind) := by
    rw [Node.namedChildren, List.filter_filter, List.filter_filter]
    refine List.filter_congr fun child _ => ?_
    cases is : child.kind == kind with
    | false => simp
    | true =>
        have noComment : child.isComment = false := by
          simp [Node.isComment, eq_of_beq is, own]
        simp [noComment]
  rw [proper, proper]
  exact alike_filter (fun _ _ same => by rw [same.kind]) alike.children

/-- Nodes of one outline are both concatenations or neither is. -/
theorem Alike.isConcatenation (alike : Alike source other node twin) :
    isConcatenation node = isConcatenation twin := by
  have operators : AlikeOption source other (node.child? .operator) (twin.child? .operator) :=
    alike.child? (by decide)
  unfold Literal.isConcatenation
  generalize node.child? .operator = mark at operators ⊢
  generalize twin.child? .operator = mark' at operators ⊢
  cases operators with
  | none => rfl
  | some operator => simp only [Option.any_some, operator.spelling]

/-- Brackets have the value of what is inside. -/
theorem value?_parenthesized (source : List Char) (is : node.kind = .parenthesized) :
    value? source node =
      match node.parts with
      | [inner] => value? source inner
      | _ => .ok none := by
  rw [Literal.value?]
  simp only [is]
  split <;> rename_i parts <;> simp [parts]

/-- The values of the two sides of a concatenation, one after the other. -/
def joined (first second : Except EscapeError (Option Text)) : Except EscapeError (Option Text) := do
  match ← first with
  | none => return none
  | some before => return (← second).map (before ++ ·)

/-- A concatenation has the values of both sides, and other operations have none. -/
theorem value?_binary (source : List Char) (is : node.kind = .binary) :
    value? source node =
      match isConcatenation node, (node.child? .left).map (value? source),
        (node.child? .right).map (value? source) with
      | true, some first, some second => joined first second
      | _, _, _ => .ok none := by
  rw [Literal.value?]
  simp only [is]
  cases isConcatenation node with
  | false => rfl
  | true =>
      simp only [Bool.not_true, Bool.false_eq_true, if_false]
      split
      · rename_i left right
        simp only [left, right]
        rfl
      · rename_i missing
        cases left : node.child? .left with
        | none => rfl
        | some first =>
            cases right : node.child? .right with
            | none => rfl
            | some second => exact absurd right (missing first second left)

/-- An expression stands for the same text wherever it is. -/
theorem Alike.value? (alike : Alike source other node twin) :
    value? source node = value? other twin := by
  induction node using Node.bySize generalizing twin with
  | step node inductionHypothesis =>
      have inside {child child' : Node} (smaller : child.size < node.size)
          (same : Alike source other child child') :
          Literal.value? source child = Literal.value? other child' :=
        inductionHypothesis child smaller same
      cases is : node.kind with
      | parenthesized =>
          have parts := alike.parts
          rw [value?_parenthesized source is, value?_parenthesized other (alike.kind ▸ is)]
          cases own : node.parts with
          | nil =>
              rw [own] at parts
              rw [List.map_eq_nil_iff.mp parts.symm]
          | cons inner rest =>
              cases own' : twin.parts with
              | nil => simp [own, own'] at parts
              | cons inner' rest' =>
                  rw [own, own', List.map_cons, List.map_cons, List.cons.injEq] at parts
                  cases rest with
                  | nil =>
                      rw [List.map_eq_nil_iff.mp parts.2.symm]
                      exact inside (Node.sizeOfPart (by simp [own])) parts.1
                  | cons next others =>
                      cases rest' with
                      | nil => simp at parts
                      | cons next' others' => rfl
      | binary =>
          have side {role : Role} (part : role ≠ .none) :
              (node.child? role).map (Literal.value? source) =
                (twin.child? role).map (Literal.value? other) := by
            have smaller {child : Node} (found : node.child? role = some child) :
                child.size < node.size := Node.sizeOfChild found
            have same := alike.child? part
            generalize node.child? role = found at same smaller ⊢
            generalize twin.child? role = found' at same ⊢
            cases same with
            | none => rfl
            | some same => exact congrArg some (inside (smaller rfl) same)
          rw [value?_binary source is, value?_binary other (alike.kind ▸ is), alike.isConcatenation,
            side (by decide), side (by decide)]
      | singleQuoted => simp only [Literal.value?, ← alike.kind, is, alike.text (by rw [is]; rfl)]
      | doubleQuoted => simp only [Literal.value?, ← alike.kind, is, alike.text (by rw [is]; rfl)]
      | nowdoc => simp only [Literal.value?, ← alike.kind, is, alike.text (by rw [is]; rfl)]
      | heredoc => simp only [Literal.value?, ← alike.kind, is, alike.text (by rw [is]; rfl)]
      | _ => rw [Literal.value?, Literal.value?, ← alike.kind, is]

end

mutual

/-- An outline and those inside it, each before what it holds. -/
def Outline.preorder : Outline → List Outline
  | .mk kind role spelling text children =>
    .mk kind role spelling text children :: Outline.preorders children

/-- The outlines in a row of outlines. -/
def Outline.preorders : List Outline → List Outline
  | [] => []
  | outline :: rest => outline.preorder ++ Outline.preorders rest

end

/-- The nodes of a tree are found in preorder. -/
theorem Node.nodes_eq_preorder (node : Node) : node.nodes = node.preorder := by
  rw [Node.nodes, Node.visitPreorders]
  simp [Node.preorders]

theorem Node.self_mem_preorder (node : Node) : node ∈ node.preorder := by
  cases node
  simp [Node.preorder]

/-- What is in a row of trees is in one of them. -/
theorem Node.mem_preorders {nodes : List Node} {inner : Node} :
    inner ∈ Node.preorders nodes ↔ ∃ node ∈ nodes, inner ∈ node.preorder := by
  induction nodes with
  | nil => simp [Node.preorders]
  | cons node rest inductionHypothesis => simp [Node.preorders, inductionHypothesis]

/-- What is in a child is in the tree. -/
theorem Node.mem_preorder_of_child {node child inner : Node} (member : child ∈ node.children)
    (inside : inner ∈ child.preorder) : inner ∈ node.preorder := by
  cases node with
  | mk kind role spelling start stop children =>
      rw [Node.preorder]
      exact List.mem_cons_of_mem _ (Node.mem_preorders.mpr ⟨child, member, inside⟩)

/-- What is in the child of a role is in the tree. -/
theorem Node.mem_preorder_of_found {node child inner : Node} {role : Role}
    (found : node.child? role = some child) (inside : inner ∈ child.preorder) :
    inner ∈ node.preorder :=
  Node.mem_preorder_of_child (List.mem_of_find?_eq_some found) inside

/-- What is in the last child is in the tree. -/
theorem Node.mem_preorder_of_last {node child inner : Node}
    (last : node.namedChildren.getLast? = some child) (inside : inner ∈ child.preorder) :
    inner ∈ node.preorder :=
  Node.mem_preorder_of_child (List.mem_filter.mp (List.mem_of_getLast? last)).1 inside

/-- What is in the only part is in the tree. -/
theorem Node.mem_preorder_of_single {node child inner : Node} (single : node.parts = [child])
    (inside : inner ∈ child.preorder) : inner ∈ node.preorder := by
  have part : child ∈ node.parts := by simp [single]
  exact Node.mem_preorder_of_child (List.mem_filter.mp (List.mem_filter.mp part).1).1 inside

/-- What is inside a node inside another one is inside that. -/
theorem Node.mem_preorder_trans {node middle inner : Node} (inside : middle ∈ node.preorder)
    (further : inner ∈ middle.preorder) : inner ∈ node.preorder := by
  induction node using Node.bySize with
  | step node inductionHypothesis =>
      cases node with
      | mk kind role spelling start stop children =>
          rw [Node.preorder] at inside
          rcases List.mem_cons.mp inside with rfl | inside
          · exact further
          · obtain ⟨child, member, inside⟩ := Node.mem_preorders.mp inside
            exact Node.mem_preorder_of_child member
              (inductionHypothesis child (Node.sizeOfMember member) inside)

/-- The nodes without the comments. -/
def Node.proper (node : Node) : List Node := node.preorder.filter (!·.isComment)

mutual

/-- The outline of a tree has the outlines of its nodes. -/
theorem outline_preorder (source : List Char) (node : Node) (proper : node.isComment = false) :
    node.proper.map (Node.outline source) = (node.outline source).preorder := by
  cases node with
  | mk kind role spelling start stop children =>
      rw [Node.proper, Node.preorder, List.filter_cons_of_pos (by simp [proper]), List.map_cons,
        Node.outline, Outline.preorder, outlines_preorders source children]

/-- The outlines of a row have those of its nodes. -/
theorem outlines_preorders (source : List Char) (nodes : List Node) :
    ((Node.preorders nodes).filter (!·.isComment)).map (Node.outline source) =
      Outline.preorders (Node.outlines source nodes) := by
  cases nodes with
  | nil => rfl
  | cons node rest =>
      rw [Node.preorders, List.filter_append, List.map_append, outlines_preorders source rest,
        Node.outlines]
      cases comment : node.isComment with
      | false =>
          simp only [Bool.false_eq_true, if_false, Outline.preorders]
          rw [← outline_preorder source node comment, Node.proper]
      | true =>
          -- A comment holds nothing.
          have alone : node.preorder = [node] := by
            cases node with
            | mk kind role spelling start stop children =>
                simp only [Node.isComment, Node.children, Bool.and_eq_true,
                  List.isEmpty_iff] at comment
                simp [Node.preorder, comment.2, Node.preorders]
          rw [alone]
          simp [comment]

end

/-- Trees of one outline are alike node by node. -/
theorem Alike.nodes {source other : List Char} {node twin : Node}
    (alike : Alike source other node twin) (proper : node.isComment = false)
    (proper' : twin.isComment = false) :
    node.proper.map (Node.outline source) = twin.proper.map (Node.outline other) := by
  rw [outline_preorder source node proper, outline_preorder other twin proper', alike]

end Untranslated.Php
