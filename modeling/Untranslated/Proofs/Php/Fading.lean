/-
This file lets names, variables and use declarations fade to plain expressions. What is left of a
tree has the same outline with a comment between any two of its tokens.
-/

import Mathlib.Data.List.Forall2
import Untranslated.Proofs.Php.Placing

namespace Untranslated.Php

open Grammar (Fits Formed LeafFits fits_of_isPlain)
open Literal (value?)

/-- The kinds that hold several tokens and are looked at as a text fade. -/
def Kind.faded (kind : Kind) : Kind := if kind.isCompound then .expression else kind

mutual

/-- A tree whose compound kinds have faded. -/
def Tree.faded : Tree → Tree
  | .leaf kind lexeme => .leaf kind.faded lexeme
  | .separator => .separator
  | .branch kind children => .branch kind.faded (fadedChildren children)

/-- Children whose compound kinds have faded. -/
def fadedChildren : List Child → List Child
  | [] => []
  | (role, tree) :: rest => (role, tree.faded) :: fadedChildren rest

end

namespace Node

mutual

/-- A node whose compound kinds have faded. -/
def faded : Node → Node
  | .mk kind role spelling start stop children =>
    .mk kind.faded role spelling start stop (fadedNodes children)

/-- Nodes whose compound kinds have faded. -/
def fadedNodes : List Node → List Node
  | [] => []
  | node :: rest => node.faded :: fadedNodes rest

end

/-- Nodes fade one by one. -/
theorem fadedNodes_eq (nodes : List Node) : fadedNodes nodes = nodes.map faded := by
  induction nodes with
  | nil => rfl
  | cons node rest inductionHypothesis => rw [fadedNodes, inductionHypothesis, List.map_cons]

end Node

/-- A child keeps its role as it fades. -/
def Child.faded (child : Child) : Child := (child.1, child.2.faded)

/-- Children fade one by one. -/
theorem fadedChildren_eq (children : List Child) :
    fadedChildren children = children.map Child.faded := by
  induction children with
  | nil => rfl
  | cons child rest inductionHypothesis =>
      rw [fadedChildren, inductionHypothesis, List.map_cons]
      rfl

section

variable {kind own : Kind}

theorem Kind.faded_of_not (solid : kind.isCompound = false) : kind.faded = kind := by
  rw [faded, solid]
  rfl

/-- A faded kind is not compound. -/
theorem Kind.faded_isCompound (kind : Kind) : kind.faded.isCompound = false := by
  rw [faded]
  split
  · rfl
  · rename_i solid
    simpa using solid

@[simp] theorem Kind.faded_isNamed (kind : Kind) : kind.faded.isNamed = kind.isNamed := by
  cases kind <;> rfl

/-- Other kinds stay apart from those that fade. -/
theorem Kind.faded_beq (solid : own.isCompound = false) (other : own ≠ .expression) (kind : Kind) :
    (kind.faded == own) = (kind == own) := by
  by_cases compound : kind.isCompound = true
  · have notOwn : kind ≠ own := by
      rintro rfl
      simp [solid] at compound
    rw [faded, if_pos compound, beq_eq_false_iff_ne.mpr other.symm, beq_eq_false_iff_ne.mpr notOwn]
  · rw [faded_of_not (by simpa using compound)]

/-- Comments do not fade, and nothing fades into one. -/
theorem Kind.faded_comment (kind : Kind) : (kind.faded == .comment) = (kind == .comment) :=
  faded_beq rfl (by decide) kind

end

section

variable {node : Node}

@[simp] theorem Node.faded_kind (node : Node) : node.faded.kind = node.kind.faded := by
  cases node
  rfl

@[simp] theorem Node.faded_role (node : Node) : node.faded.role = node.role := by
  cases node
  rfl

@[simp] theorem Node.faded_spelling (node : Node) : node.faded.spelling = node.spelling := by
  cases node
  rfl

@[simp] theorem Node.faded_stop (node : Node) : node.faded.stop = node.stop := by
  cases node
  rfl

/-- A node keeps its text as it fades. -/
@[simp] theorem Node.faded_text (source : List Char) (node : Node) :
    node.faded.text source = node.text source := by
  cases node
  rfl

@[simp] theorem Node.faded_children (node : Node) :
    node.faded.children = node.children.map Node.faded := by
  cases node
  exact Node.fadedNodes_eq _

@[simp] theorem Node.faded_namedChildren (node : Node) :
    node.faded.namedChildren = node.namedChildren.map Node.faded := by
  rw [namedChildren, namedChildren, faded_children, List.filter_map]
  congr 2
  funext child
  simp

/-- The parts of a faded node are its faded parts. -/
@[simp] theorem Node.faded_parts (node : Node) : node.faded.parts = node.parts.map Node.faded := by
  rw [parts, parts, faded_namedChildren, List.filter_map]
  congr 2
  funext child
  simp [bne, Kind.faded_comment]

/-- A child is found by its role before and after it fades. -/
@[simp] theorem Node.faded_child? (node : Node) (role : Role) :
    node.faded.child? role = (node.child? role).map Node.faded := by
  rw [child?, child?, faded_children, List.find?_map]
  congr 2
  funext child
  simp

mutual

/-- The nodes of a faded tree are its faded nodes. -/
theorem Node.faded_preorder (node : Node) :
    node.faded.preorder = node.preorder.map Node.faded := by
  cases node with
  | mk kind role spelling start stop children =>
      rw [faded, preorder, preorder, List.map_cons, fadedNodes_preorders children]
      rfl

theorem Node.fadedNodes_preorders (nodes : List Node) :
    preorders (fadedNodes nodes) = (preorders nodes).map Node.faded := by
  cases nodes with
  | nil => rfl
  | cons node rest =>
      rw [fadedNodes, preorders, preorders, List.map_append, faded_preorder node,
        fadedNodes_preorders rest]

end

/-- In a faded node a comment is apart from everything. -/
theorem Node.faded_apart (node : Node) (place distance : Nat) : node.faded.Apart place distance := by
  intro inner inside compound
  rw [faded_preorder] at inside
  obtain ⟨own, -, rfl⟩ := List.mem_map.mp inside
  simp [Kind.faded_isCompound] at compound

/-- What fades stands for no text. -/
theorem Node.faded_value? (source : List Char) (node : Node) :
    value? source node.faded = value? source node := by
  induction node using Node.bySize with
  | step node inductionHypothesis =>
      have inside {child : Node} (smaller : child.size < node.size) :
          value? source child.faded = value? source child :=
        inductionHypothesis child smaller
      cases is : node.kind with
      | parenthesized =>
          have faded : node.faded.kind = .parenthesized := by rw [faded_kind, is]; rfl
          rw [value?_parenthesized source is, value?_parenthesized source faded, faded_parts]
          cases parts : node.parts with
          | nil => rfl
          | cons inner rest =>
              cases rest with
              | nil => exact inside (Node.sizeOfPart (by simp [parts]))
              | cons next others => rfl
      | binary =>
          have faded : node.faded.kind = .binary := by rw [faded_kind, is]; rfl
          have side (role : Role) : (node.faded.child? role).map (value? source) =
              (node.child? role).map (value? source) := by
            rw [faded_child?, Option.map_map]
            cases found : node.child? role with
            | none => rfl
            | some child => exact congrArg some (inside (Node.sizeOfChild found))
          have operator : Literal.isConcatenation node.faded = Literal.isConcatenation node := by
            rw [Literal.isConcatenation, Literal.isConcatenation, faded_child?, Option.any_map]
            simp
          rw [value?_binary source is, value?_binary source faded, operator, side, side]
      | _ =>
          rw [Literal.value?, Literal.value?, faded_kind, is]
          simp only [Kind.faded, faded_text]
          rfl

end

theorem Tree.faded_kind (tree : Tree) : tree.faded.kind = tree.kind.faded := by
  cases tree <;> rfl

/-- Faded nodes stop where they stopped before. -/
theorem lastStop_faded (fallback : Nat) (nodes : List Node) :
    lastStop fallback (Node.fadedNodes nodes) = lastStop fallback nodes := by
  rw [lastStop, lastStop, Node.fadedNodes_eq, List.getLast?_map]
  cases nodes.getLast? with
  | none => rfl
  | some node => exact node.faded_stop

/-- Comments between tokens do not fade. -/
theorem fadedNodes_extras (lead : List Extra) (nodes : List Node) :
    Node.fadedNodes (lead.map Extra.node ++ nodes) =
      lead.map Extra.node ++ Node.fadedNodes nodes := by
  have extra (extra : Extra) : extra.node.faded = extra.node := by
    obtain ⟨filler, start, stop⟩ := extra
    cases filler <;> rfl
  rw [Node.fadedNodes_eq, Node.fadedNodes_eq, List.map_append, List.map_map]
  congr 2
  funext own
  exact extra own

mutual

/-- A faded tree is placed as the tree is, and its nodes are the faded ones. -/
theorem place_faded (tree : Tree) (role : Role) (offset : Nat) (tokens : List Token) :
    tree.faded.place role offset tokens =
      ⟨(tree.place role offset tokens).lead, (tree.place role offset tokens).node.faded,
        (tree.place role offset tokens).rest⟩ := by
  match tree with
  | .leaf kind lexeme => cases tokens <;> rfl
  | .separator => cases tokens <;> rfl
  | .branch kind [] => rfl
  | .branch kind ((role', first) :: others) =>
      rw [Tree.faded, fadedChildren, Tree.place, place_faded first]
      simp only [Node.faded_stop, placeOthers_faded others, Tree.place, Node.faded, Node.fadedNodes,
        lastStop_faded]
      congr 1
      cases (first.place role' offset tokens).node
      rfl

/-- Faded children are placed as the children are. -/
theorem placeOthers_faded (others : List Child) (offset : Nat) (tokens : List Token) :
    placeOthers offset (fadedChildren others) tokens =
      (Node.fadedNodes (placeOthers offset others tokens).1,
        (placeOthers offset others tokens).2) := by
  match others with
  | [] => rfl
  | (role, tree) :: others =>
      rw [fadedChildren, placeOthers, place_faded tree]
      simp only [Node.faded_stop, placeOthers_faded others, placeOthers, fadedNodes_extras,
        Node.fadedNodes]

end

/-- The node of a faded tree is the faded node of the tree. -/
theorem toNode_faded (tree : Tree) (tokens : List Token) :
    tree.faded.toNode tokens = (tree.toNode tokens).faded := by
  rw [Tree.toNode, Tree.toNode, place_faded]
  cases (tree.place .none 0 tokens).node with
  | mk kind role spelling start stop children =>
      simp only [Node.faded, fadedNodes_extras]

theorem leafFits_faded {kind : Kind} {l : Lexeme} (fits : LeafFits kind l) :
    LeafFits kind.faded l := by
  cases kind <;> first | exact fits | cases fits

/-- Faded children fit an argument. -/
theorem fits_argument_faded {children : List Child} (fits : Fits .argument children) :
    Fits .argument (children.map Child.faded) := by
  obtain ⟨named, before, value, rfl, isName, plain, isNamed⟩ := fits
  refine ⟨named.map Child.faded, before.map Child.faded, value.faded, by simp [Child.faded], ?_, ?_,
    ?_⟩
  · rcases isName with rfl | ⟨l, rfl⟩
    · exact .inl rfl
    · exact .inr ⟨l, rfl⟩
  · rw [List.forall_mem_map]
    exact plain
  · rw [Tree.faded_kind, Kind.faded_isNamed]
    exact isNamed

/-- Faded children fit a text with interpolations. -/
theorem fits_template_faded {children : List Child} (fits : Fits .template children) :
    Fits .template (children.map Child.faded) := by
  obtain ⟨l, others, l', rfl, opening, closing⟩ := fits
  exact ⟨l, others.map Child.faded, l',
    by simp [Child.faded, Tree.faded, Kind.faded, Kind.isCompound], opening, closing⟩

/-- Faded children fit the faded kind. -/
theorem fits_faded {kind : Kind} {children : List Child} (fits : Fits kind children) :
    Fits kind.faded (fadedChildren children) := by
  by_cases compound : kind.isCompound = true
  · rw [Kind.faded, if_pos compound]
    exact fits_of_isPlain rfl _
  · rw [Kind.faded_of_not (by simpa using compound), fadedChildren_eq]
    cases kind <;> first
      | exact fits_argument_faded fits
      | exact fits_template_faded fits
      | exact fits
      | exact absurd rfl compound

/-- A well-formed tree is well-formed after it fades. -/
theorem Grammar.Formed.faded {tree : Tree} (formed : Formed tree) : Formed tree.faded := by
  induction formed with
  | leaf fits => exact .leaf (leafFits_faded fits)
  | separator => exact .separator
  | branch fits inside inductionHypothesis =>
      refine .branch (fits_faded fits) ?_
      rw [fadedChildren_eq, List.forall_mem_map]
      exact inductionHypothesis

/-- Two nodes of two sources have the same outline after fading. -/
def FadedAlike (source other : List Char) (node twin : Node) : Prop :=
  Alike source other node.faded twin.faded

/-- With a comment between any two tokens a file has the same faded outline. -/
theorem toNode_fadedAlike {place distance : Nat} {source other : List Char}
    (widens : Widens place distance source other) {tree : Tree} (formed : Formed tree)
    (program : tree.kind = .program) {tokens tokens' : List Token}
    (rows : Rows place distance tokens tokens') :
    FadedAlike source other (tree.toNode tokens) (tree.toNode tokens') := by
  have fadedProgram : tree.faded.kind = .program := by rw [tree.faded_kind, program]; rfl
  have alike := toNode_alike widens formed.faded fadedProgram rows
    (toNode_faded tree tokens' ▸ Node.faded_apart _ place distance)
  rwa [toNode_faded, toNode_faded] at alike

section

variable {source other : List Char} {node twin : Node}

/-- Nodes that are alike after fading have one value. -/
theorem FadedAlike.value? (alike : FadedAlike source other node twin) :
    value? source node = value? other twin := by
  rw [← Node.faded_value?, ← Node.faded_value? other]
  exact Alike.value? alike

/-- Nodes that are alike after fading are of one kind, unless it fades. -/
theorem FadedAlike.kind (alike : FadedAlike source other node twin) (own : Kind)
    (solid : own.isCompound = false) (apart : own ≠ .expression) :
    (node.kind == own) = (twin.kind == own) := by
  have same : node.kind.faded = twin.kind.faded := by simpa using Alike.kind alike
  rw [← Kind.faded_beq solid apart, same, Kind.faded_beq solid apart]

/-- The text of one token is the same. -/
theorem FadedAlike.text (alike : FadedAlike source other node twin)
    (textual : node.kind.isTextual = true) (solid : node.kind.isCompound = false) :
    node.text source = twin.text other := by
  have same := Alike.text alike (by rwa [Node.faded_kind, Kind.faded_of_not solid])
  simpa using same

/-- Rows with the same outlines after fading are alike node by node. -/
theorem fadedAlike_rows {nodes twins : List Node}
    (same : (nodes.map Node.faded).map (Node.outline source) =
      (twins.map Node.faded).map (Node.outline other)) :
    List.Forall₂ (FadedAlike source other) nodes twins := by
  rw [List.map_map, List.map_map] at same
  rw [← List.forall₂_eq_eq_eq, List.forall₂_map_left_iff, List.forall₂_map_right_iff] at same
  exact same

/-- Nodes that are alike after fading have alike parts. -/
theorem FadedAlike.parts (alike : FadedAlike source other node twin) :
    List.Forall₂ (FadedAlike source other) node.parts twin.parts :=
  fadedAlike_rows (by rw [← Node.faded_parts, ← Node.faded_parts]; exact Alike.parts alike)

/-- Nodes that are alike after fading have alike children of each kind that does not fade. -/
theorem FadedAlike.ofKind (alike : FadedAlike source other node twin) {kind : Kind}
    (solid : kind.isCompound = false) (proper : kind ≠ .expression) (own : kind ≠ .comment) :
    List.Forall₂ (FadedAlike source other) (node.namedChildren.filter (·.kind == kind))
      (twin.namedChildren.filter (·.kind == kind)) := by
  have filtered (node : Node) : (node.namedChildren.filter (·.kind == kind)).map Node.faded =
      node.faded.namedChildren.filter (·.kind == kind) := by
    rw [Node.faded_namedChildren, List.filter_map]
    congr 2
    funext child
    simp [Kind.faded_beq solid proper]
  exact fadedAlike_rows (by rw [filtered, filtered]; exact Alike.ofKind alike own)

/-- The nodes that are no comments stand for each other in order. -/
theorem FadedAlike.nodes (alike : FadedAlike source other node twin)
    (proper : node.isComment = false) (proper' : twin.isComment = false) :
    List.Forall₂ (FadedAlike source other) node.proper twin.proper := by
  have comment (node : Node) : node.faded.isComment = node.isComment := by
    simp [Node.isComment, Kind.faded_comment]
  have filtered (node : Node) : node.proper.map Node.faded = node.faded.proper := by
    rw [Node.proper, Node.proper, Node.faded_preorder, List.filter_map]
    congr 2
    funext inner
    simp [comment]
  refine fadedAlike_rows ?_
  rw [filtered, filtered]
  exact Alike.nodes alike ((comment node).trans proper) ((comment twin).trans proper')

end

end Untranslated.Php
