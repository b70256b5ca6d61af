/-
This file proves that the nodes of a file lie in the order of its text.
Tokens and what stands between them follow one another, and a tree takes them one by one.
-/

import Untranslated.Proofs.Php.Placing
import Untranslated.Proofs.Php.Traversal

namespace Untranslated.Php

/-- Extras follow one another between two places. -/
inductive ExtrasFollow : Nat → List Extra → Nat → Prop where
  | nil {first last : Nat} (ordered : first ≤ last) : ExtrasFollow first [] last
  | cons {first last : Nat} {extra : Extra} {rest : List Extra} (before : first ≤ extra.start)
      (extent : extra.start ≤ extra.stop) (later : ExtrasFollow extra.stop rest last) :
      ExtrasFollow first (extra :: rest) last

/-- Tokens with the extras in front of them follow one another from a place on. -/
inductive TokensFollow : Nat → List Token → Prop where
  | nil {first : Nat} : TokensFollow first []
  | cons {first : Nat} {token : Token} {rest : List Token}
      (lead : ExtrasFollow first token.lead token.start) (extent : token.start ≤ token.stop)
      (later : TokensFollow token.stop rest) : TokensFollow first (token :: rest)

/-- Trees in order follow one another between two places. -/
inductive NodesFollow : Nat → List Node → Nat → Prop where
  | nil {first last : Nat} (ordered : first ≤ last) : NodesFollow first [] last
  | cons {first last : Nat} {node : Node} {rest : List Node} (before : first ≤ node.start)
      (ordered : node.InOrder) (later : NodesFollow node.stop rest last) :
      NodesFollow first (node :: rest) last

section

variable {first last : Nat}

/-- An extra may follow where the others end. -/
theorem ExtrasFollow.snoc {lead : List Extra} {extra : Extra}
    (follow : ExtrasFollow first lead extra.start) (extent : extra.start ≤ extra.stop) :
    ExtrasFollow first (lead ++ [extra]) extra.stop := by
  generalize reached : extra.start = place at follow
  induction follow with
  | nil ordered => exact .cons (reached ▸ ordered) extent (.nil (Nat.le_refl _))
  | cons before own later inductionHypothesis =>
      exact .cons before own (inductionHypothesis reached)

/-- Extras that end by a place end by every later one. -/
theorem ExtrasFollow.mono {further : Nat} {lead : List Extra}
    (follow : ExtrasFollow first lead last) (ordered : last ≤ further) :
    ExtrasFollow first lead further := by
  induction follow with
  | nil own => exact .nil (Nat.le_trans own ordered)
  | cons before extent later inductionHypothesis =>
      exact .cons before extent (inductionHypothesis ordered)

/-- The place that is reached behind a row of extras. -/
def reached (first : Nat) (lead : List Extra) : Nat := (lead.getLast?.map (·.stop)).getD first

/-- Behind a row of extras the last one ends. -/
theorem reached_cons (first : Nat) (extra : Extra) (rest : List Extra) :
    reached first (extra :: rest) = reached extra.stop rest := by
  cases rest with
  | nil => rfl
  | cons second rest => simp [reached, List.getLast?_cons]

/-- Extras can be taken apart anywhere. -/
theorem ExtrasFollow.split {before after : List Extra}
    (follow : ExtrasFollow first (before ++ after) last) :
    ExtrasFollow first before (reached first before) ∧
      ExtrasFollow (reached first before) after last := by
  induction before generalizing first with
  | nil => exact ⟨.nil (Nat.le_refl _), follow⟩
  | cons extra before inductionHypothesis =>
      cases follow with
      | cons starts extent later =>
          rw [reached_cons]
          obtain ⟨own, others⟩ := inductionHypothesis later
          exact ⟨.cons starts extent own, others⟩

/-- A node without children is in order. -/
theorem Node.inOrder_leaf {node : Node} (extent : node.start ≤ node.stop)
    (alone : node.children = []) : node.InOrder := by
  have self {inner : Node} (member : inner ∈ node.preorder) : inner = node := by
    refine (Node.mem_preorder_iff.mp member).resolve_right ?_
    simp [alone]
  refine ⟨fun inner member => ?_, fun inner member child own => ?_, fun inner member => ?_⟩
  all_goals obtain rfl := self member
  · exact extent
  · rw [alone] at own
    cases own
  · rw [alone]
    exact List.Pairwise.nil

/-- Trees that follow one another do not end before they begin. -/
theorem NodesFollow.le {row : List Node} (follow : NodesFollow first row last) : first ≤ last := by
  induction follow with
  | nil ordered => exact ordered
  | @cons first last node rest before ordered later inductionHypothesis =>
      exact Nat.le_trans before
        (Nat.le_trans (ordered.extent node node.self_mem_preorder) inductionHypothesis)

/-- Each tree in a row lies between its two places and is in order. -/
theorem NodesFollow.each {row : List Node} (follow : NodesFollow first row last) :
    ∀ node ∈ row, first ≤ node.start ∧ node.stop ≤ last ∧ node.InOrder := by
  induction follow with
  | nil => exact List.forall_mem_nil _
  | @cons first last node rest before ordered later inductionHypothesis =>
      have extent := ordered.extent node node.self_mem_preorder
      refine List.forall_mem_cons.mpr ⟨⟨before, later.le, ordered⟩, fun sibling member => ?_⟩
      obtain ⟨starts, stops, own⟩ := inductionHypothesis sibling member
      exact ⟨Nat.le_trans before (Nat.le_trans extent starts), stops, own⟩

/-- Trees that follow one another do not overlap. -/
theorem NodesFollow.apart {row : List Node} (follow : NodesFollow first row last) :
    row.Pairwise fun before after => before.stop ≤ after.start := by
  induction follow with
  | nil => exact List.Pairwise.nil
  | cons before ordered later inductionHypothesis =>
      exact List.pairwise_cons.mpr ⟨fun sibling member => (later.each sibling member).1,
        inductionHypothesis⟩

/-- Trees that are in order and do not overlap follow one another. -/
theorem nodesFollow_of_each {row : List Node} (ordered : first ≤ last)
    (each : ∀ node ∈ row, first ≤ node.start ∧ node.stop ≤ last ∧ node.InOrder)
    (apart : row.Pairwise fun before after => before.stop ≤ after.start) :
    NodesFollow first row last := by
  induction row generalizing first with
  | nil => exact .nil ordered
  | cons node row inductionHypothesis =>
      obtain ⟨⟨starts, stops, own⟩, each⟩ := List.forall_mem_cons.mp each
      obtain ⟨before, apart⟩ := List.pairwise_cons.mp apart
      exact .cons starts own (inductionHypothesis stops
        (fun sibling member => ⟨before sibling member, (each sibling member).2⟩) apart)

/-- The children of a tree in order follow one another within it. -/
theorem Node.InOrder.childrenFollow {node : Node} (ordered : node.InOrder) :
    NodesFollow node.start node.children node.stop := by
  have self := node.self_mem_preorder
  refine nodesFollow_of_each (ordered.extent node self) (fun child member => ?_)
    (ordered.apart node self)
  obtain ⟨starts, stops⟩ := ordered.inside node self child member
  exact ⟨starts, stops, ordered.child member⟩

/-- A node is in order if its children are, one after another inside it. -/
theorem NodesFollow.inOrder {node : Node}
    (follow : NodesFollow node.start node.children node.stop) : node.InOrder := by
  have each := follow.each
  refine ⟨fun inner member => ?_, fun inner member child own => ?_, fun inner member => ?_⟩
  all_goals rcases Node.mem_preorder_iff.mp member with rfl | ⟨sub, among, inside⟩
  · exact follow.le
  · exact (each sub among).2.2.extent inner inside
  · exact ⟨(each child own).1, (each child own).2.1⟩
  · exact (each sub among).2.2.inside inner inside child own
  · exact follow.apart
  · exact (each sub among).2.2.apart inner inside

/-- Two rows of trees follow one another. -/
theorem NodesFollow.append {middle : Nat} {before after : List Node}
    (front : NodesFollow first before middle) (back : NodesFollow middle after last) :
    NodesFollow first (before ++ after) last := by
  induction front with
  | @nil first middle ordered =>
      cases back with
      | nil further => exact .nil (Nat.le_trans ordered further)
      | cons starts own later => exact .cons (Nat.le_trans ordered starts) own later
  | cons starts own later inductionHypothesis => exact .cons starts own (inductionHypothesis back)

/-- The nodes of extras follow one another. -/
theorem ExtrasFollow.nodes {lead : List Extra} (follow : ExtrasFollow first lead last) :
    NodesFollow first (lead.map Extra.node) last := by
  induction follow with
  | nil ordered => exact .nil ordered
  | cons before extent later inductionHypothesis =>
      exact .cons before (Node.inOrder_leaf extent rfl) inductionHypothesis

end

/-- The tokens of a text follow one another. -/
theorem tokensFrom_follow (state : ReaderState) {first offset : Nat} {lead : List Extra}
    (follow : ExtrasFollow first lead offset) (fuel : Nat) (cs : List Char) :
    TokensFollow first (tokensFrom state lead offset fuel cs) := by
  induction fuel generalizing state first offset lead cs with
  | zero => exact .cons follow (Nat.le_refl _) .nil
  | succ fuel inductionHypothesis =>
      match cs with
      | [] => exact .cons follow (Nat.le_refl _) .nil
      | c :: cs =>
          rw [tokensFrom]
          split
          · exact inductionHypothesis _ (follow.mono (Nat.le_add_right _ _)) _
          · exact inductionHypothesis _ (follow.snoc (Nat.le_add_right _ _)) _
          · dsimp only
            split
            · exact .cons follow (Nat.le_add_right _ _) .nil
            · exact .cons follow (Nat.le_add_right _ _)
                (inductionHypothesis _ (.nil (Nat.le_refl _)) _)

/-- The tokens of a text follow one another. -/
theorem tokens_follow (text : List Char) : TokensFollow 0 (tokens text) :=
  tokensFrom_follow _ (.nil (Nat.zero_le _)) _ _

/-- A placed tree in order: what is in front of it, its node, and the tokens behind it. -/
structure Placed.Follows (first : Nat) (placed : Placed) : Prop where
  lead : ExtrasFollow first placed.lead placed.node.start
  node : placed.node.InOrder
  rest : TokensFollow placed.node.stop placed.rest

mutual

/-- A tree is placed in order. -/
theorem place_follows {first : Nat} {tokens : List Token} (follow : TokensFollow first tokens)
    (role : Role) : (tree : Tree) → (tree.place role first tokens).Follows first
  | .leaf kind lexeme => by
      cases follow with
      | nil => exact ⟨.nil (Nat.le_refl _), Node.inOrder_leaf (Nat.le_refl _) rfl, .nil⟩
      | cons lead extent later => exact ⟨lead, Node.inOrder_leaf extent rfl, later⟩
  | .separator => by
      cases follow with
      | nil => exact ⟨.nil (Nat.le_refl _), Node.inOrder_leaf (Nat.le_refl _) rfl, .nil⟩
      | @cons first token rest lead extent later =>
          -- Some of the extras stand in front of the separator, and the others stay with the token.
          rw [← keptLead_split token.lead] at lead
          exact ⟨lead.split.1, Node.inOrder_leaf (Nat.le_refl _) rfl,
            .cons lead.split.2 extent later⟩
  | .branch kind [] => ⟨.nil (Nat.le_refl _), Node.inOrder_leaf (Nat.le_refl _) rfl, follow⟩
  | .branch kind ((role', tree) :: others) => by
      have placed := place_follows follow role' tree
      obtain ⟨row, rest⟩ := placeOthers_follows placed.rest others
      exact ⟨placed.lead, NodesFollow.inOrder (.cons (Nat.le_refl _) placed.node row), rest⟩

/-- A row of trees is placed in order. -/
theorem placeOthers_follows {first : Nat} {tokens : List Token}
    (follow : TokensFollow first tokens) : (others : List Child) →
    NodesFollow first (placeOthers first others tokens).1
        (lastStop first (placeOthers first others tokens).1) ∧
      TokensFollow (lastStop first (placeOthers first others tokens).1)
        (placeOthers first others tokens).2
  | [] => ⟨.nil (Nat.le_refl _), follow⟩
  | (role, tree) :: others => by
      have placed := place_follows follow role tree
      obtain ⟨row, rest⟩ := placeOthers_follows placed.rest others
      simp only [placeOthers, lastStop_cons]
      exact ⟨placed.lead.nodes.append (.cons (Nat.le_refl _) placed.node row), rest⟩

end

/-- The nodes of a file lie in the order of its text. -/
theorem parse_inOrder {text : List Char} {path : Option Text} {program : Program}
    (parsed : parse text path = .ok program) : program.root.InOrder := by
  obtain ⟨tree, -, rfl⟩ := parse_eq_ok.mp parsed
  have placed := place_follows (tokens_follow (mask text)) .none tree
  rw [toNode_eq]
  exact NodesFollow.inOrder (placed.lead.nodes.append (placed.node.childrenFollow))

end Untranslated.Php
