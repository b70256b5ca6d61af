/-
This file proves that the quoted texts of a program stand where their tokens do.
A quoted text without an interpolation is one token. One with an interpolation reaches from its
opening to its closing.
-/

import Untranslated.Proofs.Php.Placing

namespace Untranslated.Php

open Grammar (Fits Formed LeafFits)

/-- A token without the extras in front of it. -/
structure Spot where
  lexeme : Lexeme
  start : Nat
  stop : Nat

/-- The place of a token. -/
def Token.spot (token : Token) : Spot := ⟨token.lexeme, token.start, token.stop⟩

/-- The shape of the token that a literal text is. -/
def Kind.shape? : Kind → Option Shape
  | .singleQuoted => some .singleQuoted
  | .doubleQuoted => some .doubleQuoted
  | .heredoc => some .heredoc
  | .nowdoc => some .nowdoc
  | _ => none

/-- The opening and the closing of a text with interpolations, among the tokens of a file. -/
structure Encloses (spots : List Spot) (start stop : Nat) (before : List Spot) (opening : Spot)
    (middle : List Spot) (closing : Spot) (after : List Spot) : Prop where
  row : spots = before ++ opening :: (middle ++ closing :: after)
  opens : opening.lexeme.shape = .templateOpening
  closes : closing.lexeme.shape = .templateClosing
  start : opening.start = start
  stop : closing.stop = stop

/-- A quoted text stands at its tokens. -/
structure Sits (spots : List Spot) (node : Node) : Prop where
  literal : ∀ shape, node.kind.shape? = some shape →
    ∃ spot ∈ spots, spot.lexeme.shape = shape ∧ spot.start = node.start ∧ spot.stop = node.stop
  template : node.kind = .template → ∃ before opening middle closing after,
    Encloses spots node.start node.stop before opening middle closing after

/-- Nothing is asked of a node that is no quoted text. -/
theorem sits_other {spots : List Spot} {node : Node} (noLiteral : node.kind.shape? = none)
    (noTemplate : node.kind ≠ .template) : Sits spots node where
  literal shape is := by
    rw [noLiteral] at is
    cases is
  template is := absurd is noTemplate

theorem sits_extra {spots : List Spot} (extra : Extra) : Sits spots extra.node := by
  obtain ⟨filler, start, stop⟩ := extra
  cases filler <;> exact sits_other rfl nofun

/-- A leaf stands at its token. -/
theorem sits_leaf {spots : List Spot} {kind : Kind} {spot : Spot} (member : spot ∈ spots)
    (fits : LeafFits kind spot.lexeme) (role : Role) :
    Sits spots (.mk kind role spot.lexeme.spelling spot.start spot.stop []) where
  literal shape is := by
    change kind.shape? = some shape at is
    refine ⟨spot, member, ?_, rfl, rfl⟩
    cases kind <;> cases is <;> exact fits
  template is := by
    obtain rfl : kind = .template := is
    exact False.elim fits

/-- A node with children is no literal. -/
theorem fits_noLiteral {kind : Kind} {children : List Child} (fits : Fits kind children) :
    kind.shape? = none := by
  cases kind <;> first | rfl | cases fits

/-- Two rows of children are placed one after the other. -/
theorem placeOthers_append (offset : Nat) (first second : List Child) (tokens : List Token) :
    placeOthers offset (first ++ second) tokens =
      ((placeOthers offset first tokens).1 ++
          (placeOthers (lastStop offset (placeOthers offset first tokens).1) second
            (placeOthers offset first tokens).2).1,
        (placeOthers (lastStop offset (placeOthers offset first tokens).1) second
          (placeOthers offset first tokens).2).2) := by
  induction first generalizing offset tokens with
  | nil => rfl
  | cons child others inductionHypothesis =>
      obtain ⟨role, tree⟩ := child
      simp only [List.cons_append, placeOthers, lastStop_cons, inductionHypothesis,
        List.append_assoc]

mutual

/-- A tree takes as many tokens as it has leaves. -/
theorem place_spots (tree : Tree) (role : Role) (offset : Nat) (tokens : List Token) :
    (tree.place role offset tokens).rest.map Token.spot =
      (tokens.map Token.spot).drop tree.lexemes.length := by
  match tree, tokens with
  | .leaf kind l, [] => rfl
  | .leaf kind l, token :: rest => rfl
  | .separator, [] => rfl
  | .separator, token :: rest => rfl
  | .branch kind [], tokens => rfl
  | .branch kind ((role', first) :: others), tokens =>
      rw [Tree.lexemes, rowLexemes, List.length_append, ← List.drop_drop,
        ← place_spots first role' offset tokens]
      exact placeOthers_spots others _ _

/-- Children take one token for each of their leaves. -/
theorem placeOthers_spots (others : List Child) (offset : Nat) (tokens : List Token) :
    (placeOthers offset others tokens).2.map Token.spot =
      (tokens.map Token.spot).drop (rowLexemes others).length := by
  match others with
  | [] => rfl
  | (role, tree) :: others =>
      rw [rowLexemes, List.length_append, ← List.drop_drop, ← place_spots tree role offset tokens]
      exact placeOthers_spots others _ _

end

/-- The tokens ahead are those of the leaves. -/
def Leads (lexemes : List Lexeme) (tokens : List Token) : Prop :=
  lexemes <+: tokens.map (·.lexeme)

/-- The places of tokens keep their lexemes. -/
theorem lexeme_spots (tokens : List Token) :
    (tokens.map Token.spot).map (·.lexeme) = tokens.map (·.lexeme) := by
  rw [List.map_map]
  rfl

/-- After some leaves the tokens ahead are those of the others. -/
theorem Leads.rest {first second : List Lexeme} {tokens rest : List Token}
    (leads : Leads (first ++ second) tokens)
    (same : rest.map Token.spot = (tokens.map Token.spot).drop first.length) :
    Leads second rest := by
  obtain ⟨more, whole⟩ := leads
  refine ⟨more, ?_⟩
  rw [← lexeme_spots, same, List.map_drop, lexeme_spots, ← whole, List.append_assoc, List.drop_left]

/-- The tokens ahead are first those of the first leaves. -/
theorem Leads.first {first second : List Lexeme} {tokens : List Token}
    (leads : Leads (first ++ second) tokens) : Leads first tokens :=
  (List.prefix_append first second).trans leads

/-- The next token is that of the first leaf. -/
theorem Leads.cons {l : Lexeme} {others : List Lexeme} {tokens : List Token}
    (leads : Leads (l :: others) tokens) :
    ∃ token rest, tokens = token :: rest ∧ token.lexeme = l := by
  obtain ⟨more, whole⟩ := leads
  cases tokens with
  | nil => cases whole
  | cons token rest => exact ⟨token, rest, rfl, (List.cons.inj whole).1.symm⟩

/-- The tokens that are left after some are among the tokens of the file. -/
theorem suffix_rest {spots : List Spot} {tokens rest : List Token} {count : Nat}
    (inside : tokens.map Token.spot <:+ spots)
    (same : rest.map Token.spot = (tokens.map Token.spot).drop count) :
    rest.map Token.spot <:+ spots := by
  rw [same]
  exact (List.drop_suffix _ _).trans inside

section

variable {spots : List Spot}

/-- A text with interpolations reaches from its first token to its last one. -/
theorem encloses_place {l l' : Lexeme} {others : List Child}
    (opens : l.shape = .templateOpening) (closes : l'.shape = .templateClosing)
    (role : Role) (offset : Nat) {tokens : List Token} (inside : tokens.map Token.spot <:+ spots)
    (leads : Leads (Tree.branch .template
      ((.none, .leaf .token l) :: others ++ [(.none, .leaf .token l')])).lexemes tokens) :
    ∃ before opening middle closing after, Encloses spots
      ((Tree.branch .template ((.none, .leaf .token l) :: others ++
        [(.none, .leaf .token l')])).place role offset tokens).node.start
      ((Tree.branch .template ((.none, .leaf .token l) :: others ++
        [(.none, .leaf .token l')])).place role offset tokens).node.stop
      before opening middle closing after := by
  rw [Tree.lexemes, rowLexemes_append] at leads
  obtain ⟨first, rest, rfl, rfl⟩ := leads.cons
  obtain ⟨before, row⟩ := inside
  -- The closing comes after as many tokens as there are leaves between.
  have spent := placeOthers_spots others first.stop rest
  have ahead : Leads [l'] (placeOthers first.stop others rest).2 := by
    have whole : Leads ([first.lexeme] ++ (rowLexemes others ++ [l'])) (first :: rest) := leads
    have behind : Leads (rowLexemes others ++ [l']) rest := whole.rest rfl
    exact behind.rest spent
  obtain ⟨last, after, left, rfl⟩ := ahead.cons
  rw [left] at spent
  have split : rest.map Token.spot = (rest.map Token.spot).take (rowLexemes others).length ++
      last.spot :: after.map Token.spot := by
    rw [← List.map_cons, spent, List.take_append_drop]
  refine ⟨before, first.spot, (rest.map Token.spot).take (rowLexemes others).length, last.spot,
    after.map Token.spot, ?_, opens, closes, rfl, ?_⟩
  · rw [← split, ← row]
    rfl
  · simp only [Tree.place, List.cons_append, placeOthers_append, Node.stop, lastStop]
    simp [placeOthers, left, Tree.place, Token.spot]

mutual

/-- Every quoted text in a tree stands at its tokens. -/
theorem place_sits {tree : Tree} (formed : Formed tree) (role : Role) (offset : Nat)
    {tokens : List Token} (inside : tokens.map Token.spot <:+ spots)
    (leads : Leads tree.lexemes tokens) :
    ∀ inner ∈ (tree.place role offset tokens).node.preorder, Sits spots inner := by
  match tree, formed with
  | .leaf kind l, .leaf fits =>
      obtain ⟨token, rest, rfl, rfl⟩ := leads.cons
      intro inner within
      obtain rfl : inner = .mk kind role token.lexeme.spelling token.start token.stop [] := by
        simpa [Tree.place, Node.preorder, Node.preorders] using within
      have member : token.spot ∈ spots := inside.subset List.mem_cons_self
      exact sits_leaf member fits role
  | .separator, _ =>
      intro inner within
      have kind : inner.kind = .token := by
        cases tokens with
        | nil =>
            obtain rfl : inner = _ := by
              simpa [Tree.place, Node.preorder, Node.preorders] using within
            rfl
        | cons token rest =>
            obtain rfl : inner = _ := by
              simpa [Tree.place, Node.preorder, Node.preorders] using within
            rfl
      exact sits_other (by rw [kind]; rfl) (by rw [kind]; decide)
  | .branch kind [], .branch fits _ =>
      intro inner within
      obtain rfl : inner = .mk kind role "" offset offset [] := by
        simpa [Tree.place, Node.preorder, Node.preorders] using within
      refine sits_other (fits_noLiteral fits) ?_
      rintro (rfl : kind = .template)
      obtain ⟨l, others, l', row, -⟩ := fits
      cases row
  | .branch kind ((role', first) :: others), .branch fits children =>
      intro inner within
      rw [Tree.lexemes, rowLexemes] at leads
      rcases Node.preorder_cases within with rfl | ⟨child, member, within⟩
      · by_cases template : kind = .template
        · subst template
          obtain ⟨l, middle, l', row, opens, closes⟩ := fits
          rw [← rowLexemes, ← Tree.lexemes, row] at leads
          rw [row]
          refine ⟨fun shape is => ?_, fun _ => encloses_place opens closes role offset inside leads⟩
          cases is
        · exact sits_other (fits_noLiteral fits) template
      · rcases List.mem_cons.mp member with rfl | member
        · exact place_sits (children _ List.mem_cons_self) role' offset inside leads.first inner
            within
        · have spent := place_spots first role' offset tokens
          exact placeOthers_sits (fun child member => children child (List.mem_cons_of_mem _ member))
            _ (suffix_rest inside spent) (leads.rest spent) child member inner within

/-- Every quoted text in a row of trees stands at its tokens. -/
theorem placeOthers_sits {others : List Child} (formed : ∀ child ∈ others, Formed child.2)
    (offset : Nat) {tokens : List Token} (inside : tokens.map Token.spot <:+ spots)
    (leads : Leads (rowLexemes others) tokens) :
    ∀ node ∈ (placeOthers offset others tokens).1, ∀ inner ∈ node.preorder, Sits spots inner := by
  match others with
  | [] => simp [placeOthers]
  | (role, tree) :: others =>
      rw [rowLexemes] at leads
      have spent := place_spots tree role offset tokens
      intro node member inner within
      rcases List.mem_append.mp member with member | member
      · obtain ⟨extra, -, rfl⟩ := List.mem_map.mp member
        rw [extra_preorder within]
        exact sits_extra extra
      · rcases List.mem_cons.mp member with rfl | member
        · exact place_sits (formed _ List.mem_cons_self) role offset inside leads.first inner within
        · exact placeOthers_sits (fun child member => formed child (List.mem_cons_of_mem _ member))
            _ (suffix_rest inside spent) (leads.rest spent) node member inner within

end

/-- The quoted texts of a program stand at its tokens. -/
theorem toNode_sits {tree : Tree} (formed : Formed tree) (program : tree.kind = .program)
    {tokens : List Token} (lexemes : tree.lexemes = tokens.map (·.lexeme)) :
    ∀ inner ∈ (tree.toNode tokens).preorder, Sits (tokens.map Token.spot) inner := by
  intro inner within
  rcases Node.preorder_cases within with rfl | ⟨child, member, within⟩
  · exact sits_other (by rw [toNode_kind, program]; rfl) (by rw [toNode_kind, program]; decide)
  · rw [toNode_eq] at member
    rcases List.mem_append.mp member with member | member
    · obtain ⟨extra, -, rfl⟩ := List.mem_map.mp member
      rw [extra_preorder within]
      exact sits_extra extra
    · exact place_sits formed .none 0 List.suffix_rfl (lexemes ▸ List.prefix_rfl) inner
        (Node.mem_preorder_of_child member within)

end

end Untranslated.Php
