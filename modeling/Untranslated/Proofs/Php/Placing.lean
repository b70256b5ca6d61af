/-
This file proves that a comment between two tokens moves the nodes of a tree and changes nothing
else in them, as long as no name, variable or use declaration lies around it.
-/

import Mathlib.Data.List.DropRight
import Untranslated.Proofs.Php.Grammar.Formed
import Untranslated.Proofs.Php.Lexer.Insertion
import Untranslated.Proofs.Php.Outline

namespace Untranslated.Php

open Grammar (Fits Formed)

/-- A line comment that a newline ends belongs to what follows it. -/
def goesOn (tag : Option Nat) (extra : Extra) : Bool :=
  extra.filler == .lineComment && some extra.stop != tag

/-- Template text is between two stretches of code. -/
def Extra.isMarkup (extra : Extra) : Bool := extra.filler == .markup

/-- The place of the first closing tag. -/
def closingTag (lead : List Extra) : Option Nat := (lead.find? Extra.isMarkup).map (·.start)

/-- A statement keeps the comments before a closing tag, but for those that go on. -/
theorem keptLead_eq (lead : List Extra) :
    keptLead lead = (lead.takeWhile (!·.isMarkup)).rdropWhile (goesOn (closingTag lead)) := rfl

theorem keptLead_unmarked (lead : List Extra) : keptLead lead <+: lead.takeWhile (!·.isMarkup) :=
  List.rdropWhile_prefix _ _

theorem keptLead_leads (lead : List Extra) : keptLead lead <+: lead :=
  (keptLead_unmarked lead).trans ( List.takeWhile_prefix _)

/-- A statement keeps no template text. -/
theorem keptLead_noMarkup {lead : List Extra} {extra : Extra} (member : extra ∈ keptLead lead) :
    extra.isMarkup = false := by
  have kept := List.mem_takeWhile_imp ((keptLead_unmarked lead).subset member)
  simpa using kept

/-- Moved extras are kept as the extras are. -/
theorem keptLead_shift (distance : Nat) (lead : List Extra) :
    keptLead (lead.map (Extra.shift distance)) = (keptLead lead).map (Extra.shift distance) := by
  have tag : closingTag (lead.map (Extra.shift distance)) =
      (closingTag lead).map (· + distance) := by
    rw [closingTag, closingTag, List.find?_map, Option.map_map, Option.map_map]
    rfl
  have goes : goesOn (closingTag (lead.map (Extra.shift distance))) ∘ Extra.shift distance =
      goesOn (closingTag lead) := by
    funext extra
    rw [tag]
    cases closingTag lead <;> simp [goesOn, Extra.shift, bne, Bool.beq_eq_decide_eq]
  rw [keptLead_eq, keptLead_eq, List.takeWhile_map, List.rdropWhile, List.rdropWhile,
    ← List.map_reverse, List.dropWhile_map, goes, List.map_reverse]
  rfl

/-- With a closing tag in front the rest does not matter. -/
theorem keptLead_marked {before : List Extra} (marked : ∃ extra ∈ before, extra.isMarkup = true)
    (rest : List Extra) : keptLead (before ++ rest) = keptLead before := by
  obtain ⟨extra, member, is⟩ := marked
  have tag : closingTag (before ++ rest) = closingTag before := by
    have found : (before.find? Extra.isMarkup).isSome = true :=
      List.find?_isSome.mpr ⟨extra, member, is⟩
    rw [closingTag, closingTag, List.find?_append, Option.or_of_isSome found]
  have stops : before.takeWhile (!·.isMarkup) ≠ before := by
    intro all
    have none := List.takeWhile_eq_self_iff.mp all extra member
    simp [is] at none
  rw [keptLead_eq, keptLead_eq, tag, List.takeWhile_append, if_neg]
  intro same
  exact stops (( List.takeWhile_prefix _).eq_of_length same)

/-- Comments in front of others are kept with them. -/
theorem keptLead_append {before : List Extra} (plain : ∀ extra ∈ before, extra.isMarkup = false)
    (rest : List Extra) : keptLead (before ++ rest) =
      if keptLead rest = [] then before.rdropWhile (goesOn (closingTag rest))
      else before ++ keptLead rest := by
  have tag : closingTag (before ++ rest) = closingTag rest := by
    have none : before.find? Extra.isMarkup = none :=
      List.find?_eq_none.mpr fun extra member => by simp [plain extra member]
    rw [closingTag, closingTag, List.find?_append, none, Option.none_or]
  have front : ∀ extra ∈ before, (!extra.isMarkup) = true := fun extra member => by
    rw [plain extra member]
    rfl
  rw [keptLead_eq, keptLead_eq, tag, List.takeWhile_append_of_pos front, List.rdropWhile,
    List.rdropWhile, List.rdropWhile, List.reverse_append, List.dropWhile_append]
  simp only [List.isEmpty_iff, List.reverse_eq_nil_iff]
  split
  · rfl
  · rw [List.reverse_append, List.reverse_reverse]

/-- What is kept and what is left make up the extras. -/
theorem keptLead_split (lead : List Extra) :
    keptLead lead ++ lead.drop (keptLead lead).length = lead :=
  List.prefix_iff_eq_append.mp (keptLead_leads lead)

/-- A statement keeps nothing of what another one has left. -/
theorem keptLead_rest (lead : List Extra) :
    keptLead (lead.drop (keptLead lead).length) = [] := by
  by_contra more
  have plain : ∀ extra ∈ keptLead lead, extra.isMarkup = false := fun _ => keptLead_noMarkup
  have kept := keptLead_append plain (lead.drop (keptLead lead).length)
  rw [keptLead_split, if_neg more] at kept
  exact more (List.self_eq_append_right.mp kept)

/-- The template text is left. -/
theorem markup_rest (lead : List Extra) :
    (lead.drop (keptLead lead).length).countP Extra.isMarkup = lead.countP Extra.isMarkup := by
  have none : (keptLead lead).countP Extra.isMarkup = 0 :=
    List.countP_eq_zero.mpr fun extra member => by simp [keptLead_noMarkup member]
  have split := congrArg (List.countP Extra.isMarkup) (keptLead_split lead)
  rw [List.countP_append, none, Nat.zero_add] at split
  exact split

/-- Only template text among the extras has an outline. -/
theorem outlines_extras (source : List Char) (lead : List Extra) :
    Node.outlines source (lead.map Extra.node) =
      List.replicate (lead.countP Extra.isMarkup) (.mk .markup .none "" none []) := by
  induction lead with
  | nil => rfl
  | cons extra rest inductionHypothesis =>
      obtain ⟨filler, start, stop⟩ := extra
      rw [List.map_cons, Node.outlines, inductionHypothesis]
      cases filler with
      | markup =>
          rw [List.countP_cons_of_pos rfl, List.replicate_succ]
          rfl
      | lineComment | hashComment | blockComment =>
          rw [List.countP_cons_of_neg (by simp [Extra.isMarkup])]
          rfl

/-- A place before the comment stays and one after it moves. The end of an empty statement can
move from one side of the comment to the other. -/
inductive Facing (place distance : Nat) : Nat → Nat → Prop where
  | early {offset : Nat} (before : offset ≤ place) : Facing place distance offset offset
  | late {offset : Nat} (after : place ≤ offset) : Facing place distance offset (offset + distance)
  | behind {offset : Nat} (before : offset ≤ place) :
      Facing place distance offset (place + distance)

/-- The extras in front of a token behind the comment, as far as they matter. -/
structure Trails (place distance : Nat) (lead lead' : List Extra) : Prop where
  markup : lead'.countP Extra.isMarkup = lead.countP Extra.isMarkup
  kept : keptLead lead' = (keptLead lead).map (Extra.shift distance)
  late : ∀ extra ∈ keptLead lead, place ≤ extra.stop

/-- The tokens that are still to be placed in both texts, and the places that are reached. -/
inductive InStep (place distance : Nat) : Nat → List Token → Nat → List Token → Prop where
  | early {offset : Nat} {tokens tokens' : List Token} (before : offset ≤ place)
      (rows : Rows place distance tokens tokens') : InStep place distance offset tokens offset tokens'
  | late {offset offset' : Nat} {token : Token} {lead' : List Extra} {others : List Token}
      (facing : Facing place distance offset offset') (start : place ≤ token.start)
      (stop : place ≤ token.stop) (trails : Trails place distance token.lead lead')
      (rest : ∀ token ∈ others, token.BeginsAfter place) :
      InStep place distance offset (token :: others) offset'
        (⟨token.lexeme, lead', token.start + distance, token.stop + distance⟩ ::
          others.map (Token.shift distance))
  | spent {offset offset' : Nat} (facing : Facing place distance offset offset') :
      InStep place distance offset [] offset' []

section

variable {place distance : Nat}

/-- Moved extras are in front of the moved token. -/
theorem trails_shift {lead : List Extra} (late : ∀ extra ∈ lead, place ≤ extra.stop) :
    Trails place distance lead (lead.map (Extra.shift distance)) where
  markup := List.countP_map
  kept := keptLead_shift distance lead
  late extra member := late extra
    ((keptLead_leads lead).subset member)

/-- With as much template text the rest matters in the same way. -/
theorem trails_rest {lead lead' : List Extra}
    (markup : lead'.countP Extra.isMarkup = lead.countP Extra.isMarkup) :
    Trails place distance (lead.drop (keptLead lead).length)
      (lead'.drop (keptLead lead').length) where
  markup := by rw [markup_rest, markup_rest, markup]
  kept := by rw [keptLead_rest, keptLead_rest, List.map_nil]
  late extra member := by
    rw [keptLead_rest] at member
    cases member

/-- Without tokens in one text there are none in the other. -/
theorem InStep.nil {offset offset' : Nat} {tokens' : List Token}
    (step : InStep place distance offset [] offset' tokens') : tokens' = [] := by
  generalize empty : ([] : List Token) = tokens at step
  cases step with
  | early before rows =>
      subst empty
      cases rows
  | late => cases empty
  | spent => rfl

/-- Tokens that come after the comment are moved. -/
theorem inStep_shift {offset offset' : Nat} (facing : Facing place distance offset offset')
    {tokens : List Token} (after : ∀ token ∈ tokens, token.BeginsAfter place) :
    InStep place distance offset tokens offset' (tokens.map (Token.shift distance)) := by
  cases tokens with
  | nil => exact .spent facing
  | cons token others =>
      obtain ⟨begins, rest⟩ := List.forall_mem_cons.mp after
      exact .late facing begins.start begins.stop (trails_shift begins.lead) rest

/-- A token stays or is moved as a whole. -/
inductive Moves (place distance start stop : Nat) : Nat → Nat → Prop where
  | stays (begins : start ≤ place) (ends : stop ≤ place) :
      Moves place distance start stop start stop
  | goes (begins : place ≤ start) (ends : place ≤ stop) :
      Moves place distance start stop (start + distance) (stop + distance)

/-- The next token of one text stands for the next one of the other. -/
structure SameToken (place distance : Nat) (token token' : Token) (rest rest' : List Token) :
    Prop where
  markup : token'.lead.countP Extra.isMarkup = token.lead.countP Extra.isMarkup
  moves : Moves place distance token.start token.stop token'.start token'.stop
  next : InStep place distance token.stop rest token'.stop rest'

/-- The next tokens of both texts stand for each other. -/
theorem InStep.cons {offset offset' : Nat} {token : Token} {rest tokens' : List Token}
    (step : InStep place distance offset (token :: rest) offset' tokens') :
    ∃ token' rest', tokens' = token' :: rest' ∧ SameToken place distance token token' rest rest' := by
  generalize whole : token :: rest = tokens at step
  cases step with
  | spent => cases whole
  | late facing start stop trails others =>
      obtain ⟨rfl, rfl⟩ := List.cons.inj whole
      exact ⟨_, _, rfl, trails.markup, .goes start stop, inStep_shift (.late stop) others⟩
  | early before rows =>
      cases rows with
      | early ends rows =>
          obtain ⟨rfl, rfl⟩ := List.cons.inj whole
          exact ⟨_, _, rfl, rfl, .stays ends.start ends.stop, .early ends.stop rows⟩
      | @gap lead token late ends begins others =>
          obtain ⟨rfl, rfl⟩ := List.cons.inj whole
          refine ⟨_, _, rfl, ?_, .goes begins.start begins.stop,
            inStep_shift (.late begins.stop) others⟩
          simp only [Token.behind, Token.shift, List.countP_append, List.countP_map]
          rfl

/-- Where a statement ends that keeps these comments. -/
def endOf (offset : Nat) (kept : List Extra) : Nat := (kept.getLast?.map (·.stop)).getD offset

/-- A statement that keeps comments before a place ends by it. -/
theorem endOf_le {offset : Nat} {kept : List Extra} (before : offset ≤ place)
    (ends : ∀ extra ∈ kept, extra.stop ≤ place) : endOf offset kept ≤ place := by
  unfold endOf
  cases last : kept.getLast? with
  | none => exact before
  | some extra => exact ends extra (List.mem_of_getLast? last)

/-- Statements that keep moved comments end at places that face each other. -/
theorem facing_shift {offset offset' : Nat} {kept : List Extra}
    (facing : Facing place distance offset offset') (late : ∀ extra ∈ kept, place ≤ extra.stop) :
    Facing place distance (endOf offset kept)
      (endOf offset' (kept.map (Extra.shift distance))) := by
  unfold endOf
  rw [List.getLast?_map]
  cases last : kept.getLast? with
  | none => exact facing
  | some extra => exact .late (late extra (List.mem_of_getLast? last))

/-- A statement ends at the last comment that it keeps. -/
theorem endOf_append {offset : Nat} (before : List Extra) {kept : List Extra} (filled : kept ≠ []) :
    endOf offset (before ++ kept) = endOf offset kept := by
  rw [endOf, endOf, List.getLast?_append_of_ne_nil _ filled]

/-- The comment is kept with those in front of it. -/
theorem keptLead_comment {before : List Extra} (plain : ∀ extra ∈ before, extra.isMarkup = false)
    (start stop : Nat) (rest : List Extra) :
    keptLead (before ++ [⟨.blockComment, start, stop⟩] ++ rest) =
      before ++ [⟨.blockComment, start, stop⟩] ++ keptLead rest := by
  have plain' : ∀ extra ∈ before ++ [⟨.blockComment, start, stop⟩], extra.isMarkup = false := by
    intro extra member
    rcases List.mem_append.mp member with member | member
    · exact plain extra member
    · rw [List.mem_singleton.mp member]
      rfl
  rw [keptLead_append plain']
  split
  · rename_i none
    rw [List.rdropWhile_concat_neg _ _ _ (by simp [goesOn]), none, List.append_nil]
  · rfl

/-- Statements on either side of the comment end at places that face each other. -/
theorem facing_gap {offset : Nat} {before lead : List Extra} (early : offset ≤ place)
    (plain : ∀ extra ∈ before, extra.isMarkup = false)
    (ends : ∀ extra ∈ before, extra.stop ≤ place) (late : ∀ extra ∈ lead, place ≤ extra.stop) :
    Facing place distance (endOf offset (keptLead (before ++ lead)))
      (endOf offset (keptLead (before ++ [⟨.blockComment, place, place + distance⟩] ++
        lead.map (Extra.shift distance)))) := by
  rw [keptLead_comment plain, keptLead_append plain, keptLead_shift]
  split
  · rename_i none
    rw [none, List.map_nil, List.append_nil, endOf_append before (by simp)]
    exact .behind (endOf_le early fun extra member =>
      ends extra (( List.rdropWhile_prefix _ _).subset member))
  · rename_i some
    rw [endOf_append _ some, endOf_append _ (by simpa using some)]
    exact facing_shift (.early early) fun extra member =>
      late extra ((keptLead_leads lead).subset member)

/-- The token with what a statement that ends there leaves in front of it. -/
def Token.left (token : Token) : Token :=
  { token with lead := token.lead.drop (keptLead token.lead).length }

/-- Extras in front of template text do not change what is kept behind it. -/
theorem keptLead_behind {lead : List Extra} (marked : ∃ extra ∈ lead, extra.isMarkup = true)
    (token : Token) : keptLead (token.behind lead).lead = keptLead lead :=
  keptLead_marked marked token.lead

/-- A token is left with the extras that are not kept. -/
theorem Token.left_behind {lead : List Extra} (marked : ∃ extra ∈ lead, extra.isMarkup = true)
    (token : Token) :
    (token.behind lead).left = token.behind (lead.drop (keptLead lead).length) := by
  have inside := (keptLead_leads lead).length_le
  rw [Token.left, keptLead_behind marked]
  simp only [Token.behind, List.drop_append_of_le_length inside]

/-- The end of a statement keeps the same comments, perhaps with the new one. -/
theorem InStep.separator {offset offset' : Nat} {token : Token} {rest tokens' : List Token}
    (step : InStep place distance offset (token :: rest) offset' tokens') :
    ∃ token' rest', tokens' = token' :: rest' ∧
      Facing place distance (endOf offset (keptLead token.lead))
        (endOf offset' (keptLead token'.lead)) ∧
      InStep place distance (endOf offset (keptLead token.lead)) (token.left :: rest)
        (endOf offset' (keptLead token'.lead)) (token'.left :: rest') := by
  generalize whole : token :: rest = tokens at step
  cases step with
  | spent => cases whole
  | late facing start stop trails others =>
      obtain ⟨rfl, rfl⟩ := List.cons.inj whole
      have facing' := facing_shift facing trails.late
      rw [← trails.kept] at facing'
      exact ⟨_, _, rfl, facing', .late facing' start stop (trails_rest trails.markup) others⟩
  | early before rows =>
      cases rows with
      | early ends rows =>
          obtain ⟨rfl, rfl⟩ := List.cons.inj whole
          have kept := keptLead_leads token.lead
          have stop := endOf_le before fun extra member => ends.lead extra (kept.subset member)
          have left : token.left.EndsBy place := ⟨ends.start, ends.stop, fun extra member =>
            ends.lead extra (List.mem_of_mem_drop member)⟩
          exact ⟨_, _, rfl, .early stop, .early stop (.early left rows)⟩
      | @gap lead token late ends begins others =>
          obtain ⟨rfl, rfl⟩ := List.cons.inj whole
          by_cases marked : ∃ extra ∈ lead, extra.isMarkup = true
          · have kept := keptLead_leads lead
            have stop := endOf_le before fun extra member => ends extra (kept.subset member)
            refine ⟨_, _, rfl, ?_⟩
            rw [Token.behind_append, keptLead_behind marked, keptLead_behind marked,
              Token.left_behind marked, Token.left_behind marked, ← Token.behind_append]
            exact ⟨.early stop, .early stop (.gap (fun extra member =>
              ends extra (List.mem_of_mem_drop member)) begins others)⟩
          · have plain : ∀ extra ∈ lead, extra.isMarkup = false := by simpa using marked
            have facing := @facing_gap place distance _ _ _ before plain ends begins.lead
            refine ⟨_, _, rfl, facing, .late facing begins.start begins.stop (trails_rest ?_) others⟩
            simp only [Token.behind, Token.shift, List.countP_append, List.countP_map]
            rfl

end

/-- One text is the other with something put in at a place. -/
inductive Widens (place distance : Nat) : List Char → List Char → Prop where
  | mk {front inserted back : List Char} (here : front.length = place)
      (far : inserted.length = distance) :
      Widens place distance (front ++ back) (front ++ (inserted ++ back))

section

variable {place distance : Nat} {source other : List Char}

/-- Nothing lies between a place and an earlier one. -/
theorem slice_empty (text : List Char) {start stop : Nat} (empty : stop ≤ start) :
    slice text start stop = [] := by
  rw [slice, Nat.sub_eq_zero_of_le empty, List.take_zero]

/-- What lies in the front of a text does not depend on what follows. -/
theorem slice_front {front : List Char} {stop : Nat} (inside : stop ≤ front.length) (start : Nat)
    (back : List Char) : slice (front ++ back) start stop = slice front start stop := by
  by_cases empty : stop ≤ start
  · rw [slice_empty _ empty, slice_empty _ empty]
  · rw [slice, slice, List.drop_append_of_le_length (by omega),
      List.take_append_of_le_length (by rw [List.length_drop]; omega)]

/-- The text before the place stays. -/
theorem Widens.early (widens : Widens place distance source other) {stop : Nat}
    (before : stop ≤ place) (start : Nat) : slice other start stop = slice source start stop := by
  cases widens with
  | mk here _ =>
      subst here
      rw [slice_front before, slice_front before]

/-- The text behind the place is moved. -/
theorem Widens.late (widens : Widens place distance source other) {start : Nat}
    (after : place ≤ start) (stop : Nat) :
    slice other (start + distance) (stop + distance) = slice source start stop := by
  cases widens with
  | @mk front inserted back here far =>
      subst here far
      have passed : (front ++ (inserted ++ back)).drop (start + inserted.length) =
          (front ++ back).drop start := by
        rw [List.drop_append, List.drop_append, List.drop_append, List.drop_eq_nil_of_le after,
          List.drop_eq_nil_of_le (by omega : front.length ≤ start + inserted.length),
          List.drop_eq_nil_of_le (by omega : inserted.length ≤ start + inserted.length - front.length),
          List.nil_append,
          show start + inserted.length - front.length - inserted.length = start - front.length by
            omega]
      rw [slice, slice, passed]
      congr 1
      omega

/-- A text between two places is the same, if the place of the comment is not inside. -/
theorem text_same (widens : Widens place distance source other) {start start' stop stop' : Nat}
    (starts : Moves place distance start stop start' stop') {last last' : Nat}
    (ends : Facing place distance last last')
    (apart : ¬(start' ≤ place ∧ place + distance ≤ last')) :
    slice source start last = slice other start' last' := by
  cases starts with
  | stays begins _ =>
      cases ends with
      | early before => exact (widens.early before start).symm
      | late after => exact absurd ⟨begins, by omega⟩ apart
      | behind _ => exact absurd ⟨begins, le_refl _⟩ apart
  | goes begins _ =>
      cases ends with
      | late after => exact (widens.late begins last).symm
      | early before => rw [slice_empty _ (by omega), slice_empty _ (by omega)]
      | behind before => rw [slice_empty _ (by omega), slice_empty _ (by omega)]

/-- A token keeps its text. -/
theorem Moves.text (widens : Widens place distance source other) {start start' stop stop' : Nat}
    (moves : Moves place distance start stop start' stop') :
    slice source start stop = slice other start' stop' := by
  cases moves with
  | stays _ ends => exact (widens.early ends start).symm
  | goes begins _ => exact (widens.late begins stop).symm

end

/-- The kinds of nodes that are looked at as a text and hold several tokens. -/
def Kind.isCompound (kind : Kind) : Bool := [.qualifiedName, .variable, .useDeclaration].contains kind

/-- No name, variable or use declaration in a node lies around the comment. -/
def Node.Apart (place distance : Nat) (root : Node) : Prop :=
  ∀ node ∈ root.preorder, node.kind.isCompound = true →
    ¬(node.start ≤ place ∧ place + distance ≤ node.stop)

instance (place distance : Nat) (root : Node) : Decidable (root.Apart place distance) :=
  inferInstanceAs (Decidable (∀ node ∈ root.preorder, node.kind.isCompound = true →
    ¬(node.start ≤ place ∧ place + distance ≤ node.stop)))

/-- What is in a tree is the tree itself or in a child. -/
theorem Node.preorder_cases {node inner : Node} (inside : inner ∈ node.preorder) :
    inner = node ∨ ∃ child ∈ node.children, inner ∈ child.preorder := by
  cases node with
  | mk kind role spelling start stop children =>
      rw [Node.preorder] at inside
      exact (List.mem_cons.mp inside).imp_right Node.mem_preorders.mp

/-- The comment is apart from a child if it is from the tree. -/
theorem Node.Apart.inside {place distance : Nat} {node child : Node}
    (apart : node.Apart place distance) (member : child ∈ node.children) :
    child.Apart place distance :=
  fun inner inside => apart inner (Node.mem_preorder_of_child member inside)

/-- Only these nodes are looked at as a text. They begin with a token. -/
theorem fits_textual {kind : Kind} {children : List Child} (fits : Fits kind children)
    (textual : kind.isTextual = true) :
    kind.isCompound = true ∧ ∃ role kind l others, children = (role, .leaf kind l) :: others := by
  cases kind <;> first
    | exact ⟨rfl, fits⟩
    | exact absurd textual (by decide)
    | exact absurd fits (by simp [Fits, Kind.isPlain])

/-- What is placed in the two texts differs in its places alone. -/
structure Placed.Matches (place distance : Nat) (source other : List Char)
    (placed placed' : Placed) : Prop where
  lead : placed'.lead.countP Extra.isMarkup = placed.lead.countP Extra.isMarkup
  next : InStep place distance placed.node.stop placed.rest placed'.node.stop placed'.rest
  alike : placed'.node.Apart place distance → Alike source other placed.node placed'.node

section

variable {place distance : Nat} {source other : List Char}

/-- The last node of a row tells where it ends. -/
theorem lastStop_cons (offset : Nat) (front : List Node) (node : Node) (nodes : List Node) :
    lastStop offset (front ++ node :: nodes) = lastStop node.stop nodes := by
  rw [lastStop, lastStop, List.getLast?_append, List.getLast?_cons]
  cases nodes.getLast? <;> rfl

mutual

/-- Without tokens all of a tree comes to the place that is reached. -/
theorem place_nil (tree : Tree) (role : Role) (offset : Nat) :
    (tree.place role offset []).node.start = offset ∧
      (tree.place role offset []).node.stop = offset ∧ (tree.place role offset []).rest = [] ∧
        (tree.place role offset []).lead = [] := by
  match tree with
  | .leaf kind l => exact ⟨rfl, rfl, rfl, rfl⟩
  | .separator => exact ⟨rfl, rfl, rfl, rfl⟩
  | .branch kind [] => exact ⟨rfl, rfl, rfl, rfl⟩
  | .branch kind ((role', first) :: others) =>
      obtain ⟨start, stop, rest, lead⟩ := place_nil first role' offset
      obtain ⟨last, rests⟩ := placeOthers_nil others offset
      simp only [Tree.place, stop, rest]
      exact ⟨start, last, rests, lead⟩

/-- Without tokens nothing is placed. -/
theorem placeOthers_nil (others : List Child) (offset : Nat) :
    lastStop offset (placeOthers offset others []).1 = offset ∧
      (placeOthers offset others []).2 = [] := by
  match others with
  | [] => exact ⟨rfl, rfl⟩
  | (role, tree) :: others =>
      obtain ⟨-, stop, rest, lead⟩ := place_nil tree role offset
      obtain ⟨last, rests⟩ := placeOthers_nil others offset
      simp only [placeOthers, stop, rest, lead]
      exact ⟨(lastStop_cons _ _ _ _).trans (by rw [stop, last]), rests⟩

end

/-- Nodes of one kind with the same text have the same text in their outlines. -/
theorem textOf?_congr {node twin : Node} (kind : node.kind = twin.kind)
    (same : node.kind.isTextual = true →
      slice source node.start node.stop = slice other twin.start twin.stop) :
    node.textOf? source = twin.textOf? other := by
  unfold Node.textOf? Node.text
  rw [← kind]
  split
  · rename_i textual
    rw [same textual]
  · rfl

/-- A leaf is placed alike in both texts. -/
theorem leaf_matches (widens : Widens place distance source other) (kind : Kind) (l : Lexeme)
    (role : Role) {offset offset' : Nat} {tokens tokens' : List Token}
    (step : InStep place distance offset tokens offset' tokens') :
    ((Tree.leaf kind l).place role offset tokens).Matches place distance source other
      ((Tree.leaf kind l).place role offset' tokens') := by
  cases tokens with
  | nil =>
      obtain rfl := step.nil
      refine ⟨rfl, step, fun _ => alike_iff.mpr ⟨rfl, rfl, rfl, textOf?_congr rfl fun _ => ?_, rfl⟩⟩
      exact (slice_empty _ (le_refl _)).trans (slice_empty _ (le_refl _)).symm
  | cons token rest =>
      obtain ⟨token', rest', rfl, same⟩ := step.cons
      exact ⟨same.markup, same.next, fun _ => alike_iff.mpr
        ⟨rfl, rfl, rfl, textOf?_congr rfl fun _ => same.moves.text widens, rfl⟩⟩

/-- The end of a statement is placed alike in both texts. -/
theorem separator_matches (role : Role) {offset offset' : Nat} {tokens tokens' : List Token}
    (step : InStep place distance offset tokens offset' tokens') :
    (Tree.separator.place role offset tokens).Matches place distance source other
      (Tree.separator.place role offset' tokens') := by
  cases tokens with
  | nil =>
      obtain rfl := step.nil
      exact ⟨rfl, step, fun _ => rfl⟩
  | cons token rest =>
      obtain ⟨token', rest', rfl, -, next⟩ := step.separator
      have none (lead : List Extra) : (keptLead lead).countP Extra.isMarkup = 0 :=
        List.countP_eq_zero.mpr fun extra member => by simp [keptLead_noMarkup member]
      exact ⟨(none _).trans (none _).symm, next, fun _ => rfl⟩

/-- The places that are reached face each other. -/
theorem InStep.facing {offset offset' : Nat} {tokens tokens' : List Token}
    (step : InStep place distance offset tokens offset' tokens') :
    Facing place distance offset offset' := by
  cases step with
  | early before => exact .early before
  | late facing => exact facing
  | spent facing => exact facing

/-- The text from a token to a later place is the same, unless the comment is inside. -/
theorem headed_text (widens : Widens place distance source other) (kind : Kind) (l : Lexeme)
    (role : Role) {offset offset' : Nat} {tokens tokens' : List Token}
    (step : InStep place distance offset tokens offset' tokens') {last last' : Nat}
    (ends : Facing place distance last last')
    (apart : ¬(((Tree.leaf kind l).place role offset' tokens').node.start ≤ place ∧
      place + distance ≤ last'))
    (spent : tokens = [] → last = offset ∧ last' = offset') :
    slice source ((Tree.leaf kind l).place role offset tokens).node.start last =
      slice other ((Tree.leaf kind l).place role offset' tokens').node.start last' := by
  cases tokens with
  | nil =>
      obtain rfl := step.nil
      obtain ⟨rfl, rfl⟩ := spent rfl
      rw [(place_nil _ _ _).1, (place_nil _ _ _).1, slice_empty _ (le_refl _),
        slice_empty _ (le_refl _)]
  | cons token rest =>
      obtain ⟨token', rest', rfl, same⟩ := step.cons
      exact text_same widens same.moves ends apart

/-- A placed tree keeps its kind. -/
theorem place_kind (tree : Tree) (role : Role) (offset : Nat) (tokens : List Token) :
    (tree.place role offset tokens).node.kind = tree.kind := by
  match tree, tokens with
  | .leaf kind l, [] | .leaf kind l, _ :: _ | .separator, [] | .separator, _ :: _
  | .branch kind [], _ | .branch kind (_ :: _), _ => rfl

/-- A well-formed tree is no comment. -/
theorem Grammar.Formed.proper {tree : Tree} (formed : Formed tree) : tree.kind ≠ .comment := by
  cases formed with
  | leaf fits =>
      rintro rfl
      exact fits
  | separator => exact nofun
  | branch fits inside =>
      rintro rfl
      exact absurd fits (by simp [Fits, Kind.isPlain])

/-- What stands for a tree that is no comment is not left out. -/
theorem outlines_place {tree : Tree} (proper : tree.kind ≠ .comment) (role : Role) (offset : Nat)
    (tokens : List Token) (source : List Char) (nodes : List Node) :
    Node.outlines source ((tree.place role offset tokens).node :: nodes) =
      (tree.place role offset tokens).node.outline source :: Node.outlines source nodes := by
  have kept : (tree.place role offset tokens).node.isComment = false := by
    simp [Node.isComment, place_kind, proper]
  simp [Node.outlines, kept]

mutual

/-- A tree is placed alike in both texts. -/
theorem place_matches (widens : Widens place distance source other) {tree : Tree}
    (formed : Formed tree) (role : Role) {offset offset' : Nat} {tokens tokens' : List Token}
    (step : InStep place distance offset tokens offset' tokens') :
    (tree.place role offset tokens).Matches place distance source other
      (tree.place role offset' tokens') := by
  match tree, formed with
  | .leaf kind l, _ => exact leaf_matches widens kind l role step
  | .separator, _ => exact separator_matches role step
  | .branch kind [], .branch fits _ =>
      refine ⟨rfl, step, fun _ => alike_iff.mpr ⟨rfl, rfl, rfl, textOf?_congr rfl fun _ => ?_, rfl⟩⟩
      exact (slice_empty _ (le_refl _)).trans (slice_empty _ (le_refl _)).symm
  | .branch kind ((role', first) :: others), .branch fits inside =>
      have head := place_matches widens (inside _ List.mem_cons_self) role' step
      obtain ⟨next, rests⟩ := placeOthers_matches widens
        (fun child member => inside child (List.mem_cons_of_mem _ member)) head.next
      refine ⟨head.lead, next, fun apart => alike_iff.mpr ⟨rfl, rfl, rfl, textOf?_congr rfl ?_, ?_⟩⟩
      · intro textual
        obtain ⟨compound, _, _, _, _, same⟩ := fits_textual fits textual
        obtain ⟨⟨rfl, rfl⟩, rfl⟩ := List.cons.inj same
        refine headed_text widens _ _ _ step next.facing
          (apart _ (Node.self_mem_preorder _) compound) ?_
        rintro rfl
        obtain rfl := step.nil
        exact ⟨(place_nil _ role offset).2.1, (place_nil _ role offset').2.1⟩
      · have first := head.alike (apart.inside List.mem_cons_self)
        have others := rests fun node member => apart.inside (List.mem_cons_of_mem _ member)
        have proper := (inside _ List.mem_cons_self).proper
        simp only [Tree.place, Node.children]
        rw [outlines_place proper, outlines_place proper, first, others]

/-- A row of trees is placed alike in both texts. -/
theorem placeOthers_matches (widens : Widens place distance source other) {others : List Child}
    (formed : ∀ child ∈ others, Formed child.2) {offset offset' : Nat} {tokens tokens' : List Token}
    (step : InStep place distance offset tokens offset' tokens') :
    InStep place distance (lastStop offset (placeOthers offset others tokens).1)
        (placeOthers offset others tokens).2
        (lastStop offset' (placeOthers offset' others tokens').1)
        (placeOthers offset' others tokens').2 ∧
      ((∀ node ∈ (placeOthers offset' others tokens').1, node.Apart place distance) →
        Node.outlines source (placeOthers offset others tokens).1 =
          Node.outlines other (placeOthers offset' others tokens').1) := by
  match others with
  | [] => exact ⟨step, fun _ => rfl⟩
  | (role, tree) :: others =>
      have own := formed _ List.mem_cons_self
      have head := place_matches widens own role step
      obtain ⟨next, rests⟩ := placeOthers_matches widens
        (fun child member => formed child (List.mem_cons_of_mem _ member)) head.next
      simp only [placeOthers, lastStop_cons]
      refine ⟨next, fun apart => ?_⟩
      have first := head.alike (apart _ (by simp))
      have others := rests fun node member => apart node (by simp [member])
      rw [Node.outlines_append, Node.outlines_append, outlines_extras, outlines_extras, head.lead,
        outlines_place own.proper, outlines_place own.proper, first, others]

end

/-- The node of a file has the extras in front of it among its children. -/
theorem toNode_eq (tree : Tree) (tokens : List Token) : tree.toNode tokens =
    .mk tree.kind .none (tree.place .none 0 tokens).node.spelling 0
      (tree.place .none 0 tokens).node.stop
      ((tree.place .none 0 tokens).lead.map Extra.node ++
        (tree.place .none 0 tokens).node.children) := by
  match tree, tokens with
  | .leaf kind l, [] | .leaf kind l, _ :: _ | .separator, [] | .separator, _ :: _
  | .branch kind [], _ | .branch kind (_ :: _), _ => rfl

/-- The node of a file has the kind of its tree. -/
theorem toNode_kind (tree : Tree) (tokens : List Token) :
    (tree.toNode tokens).kind = tree.kind := by
  rw [toNode_eq]
  rfl

/-- With a comment between two tokens a file has the same outline. -/
theorem toNode_alike (widens : Widens place distance source other) {tree : Tree}
    (formed : Formed tree) (program : tree.kind = .program) {tokens tokens' : List Token}
    (rows : Rows place distance tokens tokens')
    (apart : (tree.toNode tokens').Apart place distance) :
    Alike source other (tree.toNode tokens) (tree.toNode tokens') := by
  have placed := place_matches widens formed .none (.early (Nat.zero_le place) rows)
  have apart' : (tree.place .none 0 tokens').node.Apart place distance := by
    intro inner inside compound
    rcases Node.preorder_cases inside with rfl | ⟨child, member, inside⟩
    · rw [place_kind, program] at compound
      cases compound
    · refine apart inner ?_ compound
      rw [toNode_eq]
      exact Node.mem_preorder_of_child (List.mem_append_right _ member) inside
  have own := alike_iff.mp (placed.alike apart')
  rw [toNode_eq, toNode_eq, program]
  refine alike_iff.mpr ⟨rfl, rfl, own.2.2.1, rfl, ?_⟩
  simp only [Node.children] at *
  rw [Node.outlines_append, Node.outlines_append, outlines_extras, outlines_extras, placed.lead]
  exact congrArg _ own.2.2.2.2

end

/-- A placed tree has the role that it is given. -/
theorem place_role (tree : Tree) (role : Role) (offset : Nat) (tokens : List Token) :
    (tree.place role offset tokens).node.role = role := by
  match tree, tokens with
  | .leaf kind l, [] | .leaf kind l, _ :: _ | .separator, [] | .separator, _ :: _
  | .branch kind [], _ | .branch kind (_ :: _), _ => rfl

/-- A child of a placed tree is an extra or stands for a child of the tree. -/
inductive ChildOf (children : List Child) : Node → Prop where
  | extra (extra : Extra) : ChildOf children extra.node
  | child {child : Child} (member : child ∈ children) (offset : Nat) (tokens : List Token) :
      ChildOf children (child.2.place child.1 offset tokens).node

/-- A child of a row is a child of a longer one. -/
theorem ChildOf.cons {children : List Child} {node : Node} (childOf : ChildOf children node)
    (first : Child) : ChildOf (first :: children) node := by
  cases childOf with
  | extra extra => exact .extra extra
  | child member offset tokens => exact .child (List.mem_cons_of_mem _ member) offset tokens

/-- A placed row has extras and nodes of its trees. -/
theorem placeOthers_children (others : List Child) (offset : Nat) (tokens : List Token) :
    ∀ node ∈ (placeOthers offset others tokens).1, ChildOf others node := by
  induction others generalizing offset tokens with
  | nil => simp [placeOthers]
  | cons first others inductionHypothesis =>
      intro node member
      rcases List.mem_append.mp member with member | member
      · obtain ⟨extra, -, rfl⟩ := List.mem_map.mp member
        exact .extra extra
      · rcases List.mem_cons.mp member with rfl | member
        · exact .child List.mem_cons_self offset tokens
        · exact (inductionHypothesis _ _ node member).cons first

/-- A placed tree has extras and nodes of its children. -/
theorem place_children (kind : Kind) (children : List Child) (role : Role) (offset : Nat)
    (tokens : List Token) :
    ∀ node ∈ ((Tree.branch kind children).place role offset tokens).node.children,
      ChildOf children node := by
  cases children with
  | nil => nofun
  | cons first others =>
      intro node member
      rcases List.mem_cons.mp member with rfl | member
      · exact .child List.mem_cons_self offset tokens
      · exact (placeOthers_children others _ _ node member).cons first

/-- The last child of a tree stands last. -/
theorem placeOthers_last (others : List Child) (role : Role) (last : Tree) (offset : Nat)
    (tokens : List Token) : ∃ front offset' tokens',
      (placeOthers offset (others ++ [(role, last)]) tokens).1 =
        front ++ [(last.place role offset' tokens').node] := by
  induction others generalizing offset tokens with
  | nil => exact ⟨_, offset, tokens, rfl⟩
  | cons first others inductionHypothesis =>
      obtain ⟨front, offset', tokens', same⟩ := inductionHypothesis
        (first.2.place first.1 offset tokens).node.stop (first.2.place first.1 offset tokens).rest
      refine ⟨(first.2.place first.1 offset tokens).lead.map Extra.node ++
        (first.2.place first.1 offset tokens).node :: front, offset', tokens', ?_⟩
      simp only [List.cons_append, placeOthers, same, List.append_assoc]

/-- The last child of a placed tree is the node of its last tree. -/
theorem place_last (kind : Kind) (before : List Child) (role : Role) (last : Tree) (role' : Role)
    (offset : Nat) (tokens : List Token) : ∃ front offset' tokens',
      ((Tree.branch kind (before ++ [(role, last)])).place role' offset tokens).node.children =
        front ++ [(last.place role offset' tokens').node] := by
  cases before with
  | nil => exact ⟨[], offset, tokens, rfl⟩
  | cons first others =>
      obtain ⟨front, offset', tokens', same⟩ := placeOthers_last others role last
        (first.2.place first.1 offset tokens).node.stop (first.2.place first.1 offset tokens).rest
      refine ⟨(first.2.place first.1 offset tokens).node :: front, offset', tokens', ?_⟩
      simp only [List.cons_append, Tree.place, Node.children, same]

/-- A node is an extra or stands for a well-formed tree. -/
inductive StandsFor : Node → Prop where
  | extra (extra : Extra) : StandsFor extra.node
  | tree {tree : Tree} (formed : Formed tree) (role : Role) (offset : Nat) (tokens : List Token) :
      StandsFor (tree.place role offset tokens).node

theorem extra_preorder {extra : Extra} {inner : Node} (inside : inner ∈ extra.node.preorder) :
    inner = extra.node := by
  simpa [Extra.node, Node.preorder, Node.preorders] using inside

/-- Every node of a placed tree is an extra or stands for a well-formed tree. -/
theorem place_standsFor {tree : Tree} (formed : Formed tree) (role : Role) (offset : Nat)
    (tokens : List Token) :
    ∀ inner ∈ (tree.place role offset tokens).node.preorder, StandsFor inner := by
  induction formed generalizing role offset tokens with
  | @leaf kind l fits =>
      intro inner inside
      have alone : inner = ((Tree.leaf kind l).place role offset tokens).node := by
        cases tokens <;> simpa [Tree.place, Node.preorder, Node.preorders] using inside
      exact alone ▸ .tree (.leaf fits) role offset tokens
  | separator =>
      intro inner inside
      have alone : inner = (Tree.separator.place role offset tokens).node := by
        cases tokens <;> simpa [Tree.place, Node.preorder, Node.preorders] using inside
      exact alone ▸ .tree .separator role offset tokens
  | @branch kind children fits inside inductionHypothesis =>
      intro inner within
      rcases Node.preorder_cases within with rfl | ⟨child, member, within⟩
      · exact .tree (.branch fits inside) role offset tokens
      · cases place_children kind children role offset tokens child member with
        | extra extra => exact extra_preorder within ▸ .extra extra
        | child own offset tokens => exact inductionHypothesis _ own _ offset tokens inner within

/-- The same for the node of a file. -/
theorem toNode_standsFor {tree : Tree} (formed : Formed tree) (tokens : List Token) :
    ∀ inner ∈ (tree.toNode tokens).preorder, inner = tree.toNode tokens ∨ StandsFor inner := by
  intro inner within
  rcases Node.preorder_cases within with rfl | ⟨child, member, within⟩
  · exact .inl rfl
  · rw [toNode_eq] at member
    refine .inr ?_
    rcases List.mem_append.mp member with member | member
    · obtain ⟨extra, -, rfl⟩ := List.mem_map.mp member
      exact extra_preorder within ▸ .extra extra
    · exact place_standsFor formed .none 0 tokens inner (Node.mem_preorder_of_child member within)

/-- A comment between tokens leaves their lexemes. -/
theorem Rows.lexemes {place distance : Nat} {tokens tokens' : List Token}
    (rows : Rows place distance tokens tokens') :
    tokens'.map (·.lexeme) = tokens.map (·.lexeme) := by
  induction rows with
  | gap => simp [Token.behind, Token.shift]
  | early ends rows inductionHypothesis => rw [List.map_cons, List.map_cons, inductionHypothesis]

/-- The tree depends on the lexemes alone. -/
theorem read_congr {tokens tokens' : List Token} {tree : Tree}
    (same : tokens'.map (·.lexeme) = tokens.map (·.lexeme)) (success : read tokens = .ok tree) :
    read tokens' = .ok tree := by
  rw [read_eq_ok] at success ⊢
  rw [same]
  exact success

/-- A file is parsed just when the grammar reads the tokens of its masked text. -/
theorem parse_eq_ok {text : List Char} {path : Option Text} {program : Program} :
    parse text path = .ok program ↔ ∃ tree, read (tokens (mask text)) = .ok tree ∧
      program = ⟨.ofChars text, tree.toNode (tokens (mask text))⟩ := by
  unfold parse
  simp only [Source.ofChars]
  cases read (tokens (mask text)) with
  | error failure => simp
  | ok tree => simp [eq_comm]

end Untranslated.Php
