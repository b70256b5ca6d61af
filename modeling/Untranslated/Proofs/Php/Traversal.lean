/-
This file proves that a traversal meets every place of a tree once, outer places before inner ones
and then from left to right. Where nodes lie in the order of the text, they are met in that order.
-/

import Mathlib.Data.List.Forall2
import Untranslated.Proofs.Php.Outline

namespace Untranslated.Php

namespace Node

/-- The node at a place. The numbers of the children that lead to it tell the place. -/
def at? (node : Node) : List Nat → Option Node
  | [] => some node
  | index :: rest => node.children[index]?.bind fun child => child.at? rest

mutual

/-- All places in a tree. -/
def places : Node → List (List Nat)
  | .mk _ _ _ _ _ children => [] :: placesFrom 0 children

/-- The places in trees that are numbered from an index on. -/
def placesFrom (index : Nat) : List Node → List (List Nat)
  | [] => []
  | node :: rest => node.places.map (index :: ·) ++ placesFrom (index + 1) rest

end

/-- A place in a row tells a tree and a place in it. -/
theorem mem_placesFrom {row : List Node} {index : Nat} {place : List Nat} :
    place ∈ placesFrom index row ↔ ∃ offset child rest,
      row[offset]? = some child ∧ place = (index + offset) :: rest ∧ rest ∈ child.places := by
  induction row generalizing index with
  | nil => simp [placesFrom]
  | cons node row inductionHypothesis =>
      rw [placesFrom, List.mem_append, List.mem_map, inductionHypothesis]
      constructor
      · rintro (⟨rest, inside, rfl⟩ | ⟨offset, child, rest, found, rfl, inside⟩)
        · exact ⟨0, node, rest, rfl, rfl, inside⟩
        · exact ⟨offset + 1, child, rest, found, by rw [Nat.add_right_comm, Nat.add_assoc], inside⟩
      · rintro ⟨offset, child, rest, found, rfl, inside⟩
        cases offset with
        | zero =>
            obtain rfl := Option.some.inj found
            exact .inl ⟨rest, inside, rfl⟩
        | succ offset =>
            exact .inr ⟨offset, child, rest, found, by rw [Nat.add_right_comm, Nat.add_assoc],
              inside⟩

/-- The places are those at which a node is. -/
theorem mem_places {place : List Nat} {root : Node} :
    place ∈ root.places ↔ ∃ node, root.at? place = some node := by
  induction place generalizing root with
  | nil =>
      cases root
      simp [places, at?]
  | cons index rest inductionHypothesis =>
      obtain ⟨kind, role, spelling, start, stop, children⟩ := root
      rw [places, List.mem_cons, mem_placesFrom, at?]
      simp only [reduceCtorEq, false_or, Nat.zero_add, List.cons.injEq, Option.bind_eq_some_iff]
      change _ ↔ ∃ node child, children[index]? = some child ∧ child.at? rest = some node
      constructor
      · rintro ⟨offset, child, other, found, ⟨rfl, rfl⟩, inside⟩
        obtain ⟨node, reached⟩ := inductionHypothesis.mp inside
        exact ⟨node, child, found, reached⟩
      · rintro ⟨node, child, found, reached⟩
        exact ⟨index, child, rest, found, ⟨rfl, rfl⟩, inductionHypothesis.mpr ⟨node, reached⟩⟩

mutual

/-- The places stand in order. -/
theorem places_pairwise : (node : Node) → node.places.Pairwise (· < ·)
  | .mk _ _ _ _ _ children => by
      rw [places, List.pairwise_cons]
      refine ⟨fun place member => ?_, placesFrom_pairwise 0 children⟩
      obtain ⟨offset, child, rest, -, rfl, -⟩ := mem_placesFrom.mp member
      exact List.nil_lt_cons _ _

/-- Places are listed in order, each once. -/
theorem placesFrom_pairwise (index : Nat) : (row : List Node) →
    (placesFrom index row).Pairwise (· < ·)
  | [] => List.Pairwise.nil
  | node :: rest => by
      rw [placesFrom, List.pairwise_append, List.pairwise_map]
      refine ⟨?_, placesFrom_pairwise (index + 1) rest, ?_⟩
      · exact (places_pairwise node).imp fun before =>
          List.cons_lt_cons_iff.mpr (.inr ⟨rfl, before⟩)
      · intro first inside second later
        obtain ⟨own, -, rfl⟩ := List.mem_map.mp inside
        obtain ⟨offset, child, other, -, rfl, -⟩ := mem_placesFrom.mp later
        exact List.cons_lt_cons_iff.mpr (.inl (by omega))

end

mutual

/-- The nodes of a tree are met at its places. -/
theorem preorder_places : (node : Node) →
    List.Forall₂ (fun place inner => node.at? place = some inner) node.places node.preorder
  | .mk kind role spelling start stop children => by
      rw [places, preorder]
      refine .cons rfl ((preorders_places 0 children).imp ?_)
      rintro place inner ⟨offset, child, rest, found, rfl, reached⟩
      rw [Nat.zero_add, at?]
      exact Option.bind_eq_some_iff.mpr ⟨child, found, reached⟩

/-- The nodes of a row stand at its places, in order. -/
theorem preorders_places (index : Nat) : (row : List Node) →
    List.Forall₂ (fun place inner => ∃ offset child rest, row[offset]? = some child ∧
      place = (index + offset) :: rest ∧ child.at? rest = some inner)
      (placesFrom index row) (preorders row)
  | [] => .nil
  | node :: rest => by
      rw [placesFrom, preorders]
      refine List.rel_append ?_ ?_
      · rw [List.forall₂_map_left_iff]
        exact (preorder_places node).imp fun place inner reached =>
          ⟨0, node, place, rfl, rfl, reached⟩
      · refine (preorders_places (index + 1) rest).imp ?_
        rintro place inner ⟨offset, child, own, found, rfl, reached⟩
        exact ⟨offset + 1, child, own, found, by rw [Nat.add_right_comm, Nat.add_assoc], reached⟩

end

end Node

section

variable {A : Type}

/-- A row lists what is told of the nodes of a tree, once for every place where something is told,
in the order of the places. -/
def Lists (root : Node) (told : Node → A → Prop) (row : List A) : Prop :=
  ∃ places : List (List Nat), places.Pairwise (· < ·) ∧
    (∀ place, place ∈ places ↔ ∃ node a, root.at? place = some node ∧ told node a) ∧
    List.Forall₂ (fun place a => ∃ node, root.at? place = some node ∧ told node a) places row

/-- What is read off the nodes in pre-order is a list of it. -/
theorem lists_filterMap (root : Node) (told? : Node → Option A) :
    Lists root (fun node a => told? node = some a) (root.preorder.filterMap told?) := by
  refine ⟨root.places.filter fun place => ((root.at? place).bind told?).isSome,
    root.places_pairwise.filter _, fun place => ?_, ?_⟩
  · rw [List.mem_filter, Node.mem_places, Option.isSome_iff_exists]
    simp only [Option.bind_eq_some_iff]
    exact ⟨fun ⟨_, a, node, reached, told⟩ => ⟨node, a, reached, told⟩,
      fun ⟨node, a, reached, told⟩ => ⟨⟨node, reached⟩, a, node, reached, told⟩⟩
  · have met := root.preorder_places
    generalize root.preorder = nodes at met ⊢
    generalize root.places = places at met ⊢
    induction met with
    | nil => exact .nil
    | @cons place node places nodes reached met inductionHypothesis =>
        rw [List.filter_cons, List.filterMap_cons, reached, Option.bind_some]
        cases told : told? node with
        | none => exact inductionHypothesis
        | some a => exact .cons ⟨node, reached, told⟩ inductionHypothesis

/-- A traversal visits the node at every place. -/
theorem lists_nodes (root : Node) : Lists root (fun node visited => visited = node) root.nodes := by
  have each := lists_filterMap root some
  rw [List.filterMap_some, ← root.nodes_eq_preorder] at each
  simpa only [Option.some.injEq, eq_comm] using each

end

/-- In a tree in order children lie inside their parent and follow one another in the text. -/
structure Node.InOrder (root : Node) : Prop where
  extent : ∀ node ∈ root.preorder, node.start ≤ node.stop
  inside : ∀ node ∈ root.preorder, ∀ child ∈ node.children,
    node.start ≤ child.start ∧ child.stop ≤ node.stop
  apart : ∀ node ∈ root.preorder,
    node.children.Pairwise fun first second => first.stop ≤ second.start

namespace Node

section

variable {root node inner : Node}

/-- Every tree in a tree in order is in order. -/
theorem InOrder.within (ordered : root.InOrder) (member : node ∈ root.preorder) :
    node.InOrder where
  extent inner further := ordered.extent inner (mem_preorder_trans member further)
  inside inner further := ordered.inside inner (mem_preorder_trans member further)
  apart inner further := ordered.apart inner (mem_preorder_trans member further)

theorem InOrder.child (ordered : root.InOrder) (member : node ∈ root.children) : node.InOrder :=
  ordered.within (mem_preorder_of_child member node.self_mem_preorder)

/-- What is in a tree is the tree itself or in a child. -/
theorem mem_preorder_iff : inner ∈ node.preorder ↔
    inner = node ∨ ∃ child ∈ node.children, inner ∈ child.preorder := by
  cases node
  rw [preorder, List.mem_cons, mem_preorders]
  rfl

/-- All nodes of a tree lie inside its root. -/
theorem InOrder.bounds (ordered : node.InOrder) (member : inner ∈ node.preorder) :
    node.start ≤ inner.start ∧ inner.stop ≤ node.stop := by
  induction node using bySize with
  | step node inductionHypothesis =>
      rcases mem_preorder_iff.mp member with rfl | ⟨child, own, further⟩
      · exact ⟨Nat.le_refl _, Nat.le_refl _⟩
      · obtain ⟨starts, stops⟩ := ordered.inside node node.self_mem_preorder child own
        obtain ⟨first, last⟩ :=
          inductionHypothesis _ (sizeOfMember own) (ordered.child own) further
        exact ⟨Nat.le_trans starts first, Nat.le_trans last stops⟩

/-- The nodes of trees in order begin one after the other. -/
theorem preorders_starts {row : List Node} (ordered : ∀ child ∈ row, child.InOrder)
    (each : ∀ child ∈ row, child.preorder.Pairwise fun first second => first.start ≤ second.start)
    (apart : row.Pairwise fun first second => first.stop ≤ second.start) :
    (preorders row).Pairwise fun first second => first.start ≤ second.start := by
  induction row with
  | nil => exact List.Pairwise.nil
  | cons node row inductionHypothesis =>
      obtain ⟨here, ordered⟩ := List.forall_mem_cons.mp ordered
      obtain ⟨own, each⟩ := List.forall_mem_cons.mp each
      obtain ⟨before, apart⟩ := List.pairwise_cons.mp apart
      rw [preorders, List.pairwise_append]
      refine ⟨own, inductionHypothesis ordered each apart, fun first inside second later => ?_⟩
      obtain ⟨sibling, member, further⟩ := mem_preorders.mp later
      calc first.start
          ≤ first.stop := here.extent first inside
        _ ≤ node.stop := (here.bounds inside).2
        _ ≤ sibling.start := before sibling member
        _ ≤ second.start := ((ordered sibling member).bounds further).1

/-- Nodes are met in the order in which they begin. -/
theorem InOrder.starts (ordered : node.InOrder) :
    node.preorder.Pairwise fun first second => first.start ≤ second.start := by
  induction node using bySize with
  | step node inductionHypothesis =>
      have row := preorders_starts (fun child own => ordered.child own)
        (fun child own => inductionHypothesis _ (sizeOfMember own) (ordered.child own))
        (ordered.apart node node.self_mem_preorder)
      have outer (inner : Node) (member : inner ∈ preorders node.children) :
          node.start ≤ inner.start := by
        obtain ⟨child, own, further⟩ := mem_preorders.mp member
        exact (ordered.bounds (mem_preorder_of_child own further)).1
      cases node
      exact List.pairwise_cons.mpr ⟨outer, row⟩

end

end Node

namespace Position

/-- A position is not behind another one. -/
def NotBehind (first second : Position) : Prop :=
  first.line < second.line ∨ first.line = second.line ∧ first.column ≤ second.column

/-- Going on in a text does not lead back. -/
theorem notBehind_foldl (place : Position) (text : List Char) :
    place.NotBehind (text.foldl step place) := by
  induction text generalizing place with
  | nil => exact .inr ⟨rfl, Nat.le_refl _⟩
  | cons c rest inductionHypothesis =>
      have later := inductionHypothesis (place.step c)
      rw [List.foldl_cons]
      unfold NotBehind step at *
      split at later
      · next newline =>
        rw [if_pos newline]
        dsimp only at later ⊢
        omega
      · next newline =>
        rw [if_neg newline]
        dsimp only at later ⊢
        omega

end Position

/-- What is further on in a text has no earlier position. -/
theorem Source.position_notBehind (source : Source) {first second : Nat}
    (ordered : first ≤ second) :
    (source.position first).NotBehind (source.position second) := by
  obtain ⟨more, rfl⟩ := Nat.le.dest ordered
  rw [position, position, advanceTake, advanceTake, List.take_add, List.foldl_append]
  exact Position.notBehind_foldl _ _

end Untranslated.Php
