/-
This file proves what a comment between two tokens of code does to the tokens of a text.
The tokens before it stay, the next one has the comment in front, and all from there are moved.
-/

import Untranslated.Proofs.Php.Lexer.Locality

namespace Untranslated.Php

/-- The tokens of what is left of a text, with enough fuel. -/
def tokensAt (state : ReaderState) (lead : List Extra) (offset : Nat) (cs : List Char) :
    List Token :=
  tokensFrom state lead offset (cs.length + 1) cs

/-- The tokens of a text are those of a step and those of what is left after it. -/
theorem tokensAt_step {state : ReaderState} {cs : List Char} (sound : WellNested state.frames)
    (filled : cs ≠ []) (lead : List Extra) (offset : Nat) :
    tokensAt state lead offset cs =
      (lexStep state cs).tokens state lead offset ++
        if (lexStep state cs).isBroken then []
        else tokensAt ((lexStep state cs).state state (cs.take (lexStep state cs).size))
          ((lexStep state cs).lead lead offset) (offset + (lexStep state cs).size)
          (cs.drop (lexStep state cs).size) := by
  have good := lexStep_sound sound filled
  have positive := good.positive
  have length := List.length_pos_iff.mpr filled
  have shorter : (cs.drop (lexStep state cs).size).length < cs.length := by
    rw [List.length_drop]
    omega
  rw [tokensAt, tokensFrom_step _ _ _ _ filled,
    tokensFrom_fuel (good.state sound _) _ _ shorter (Nat.lt_succ_self _)]
  rfl

/-- A comment at a later place. -/
def Extra.shift (distance : Nat) (extra : Extra) : Extra :=
  ⟨extra.filler, extra.start + distance, extra.stop + distance⟩

/-- A token at a later place, with all extras in front of it. -/
def Token.shift (distance : Nat) (token : Token) : Token :=
  ⟨token.lexeme, token.lead.map (Extra.shift distance), token.start + distance,
    token.stop + distance⟩

/-- A token with more extras in front of it. -/
def Token.behind (lead : List Extra) (token : Token) : Token :=
  ⟨token.lexeme, lead ++ token.lead, token.start, token.stop⟩

theorem Token.behind_append (first second : List Extra) (token : Token) :
    token.behind (first ++ second) = (token.behind second).behind first := by
  simp [Token.behind]

/-- A token is moved together with the extras in front of it. -/
theorem Token.shift_behind (distance : Nat) (lead : List Extra) (token : Token) :
    (token.behind lead).shift distance =
      (token.shift distance).behind (lead.map (Extra.shift distance)) := by
  simp [Token.behind, Token.shift]

/-- A token with all extras in front of it ends by a place. -/
structure Token.EndsBy (place : Nat) (token : Token) : Prop where
  start : token.start ≤ place
  stop : token.stop ≤ place
  lead : ∀ extra ∈ token.lead, extra.stop ≤ place

/-- A token with all extras in front of it begins after a place. -/
structure Token.BeginsAfter (place : Nat) (token : Token) : Prop where
  start : place ≤ token.start
  stop : place ≤ token.stop
  lead : ∀ extra ∈ token.lead, place ≤ extra.stop

/-- A token that ends by a place ends by every later one. -/
theorem Token.EndsBy.mono {place later : Nat} {token : Token} (ends : token.EndsBy place)
    (le : place ≤ later) : token.EndsBy later where
  start := ends.start.trans le
  stop := ends.stop.trans le
  lead extra member := (ends.lead extra member).trans le

/-- The tokens of a step end where the step ends. -/
theorem LexStep.tokens_endsBy {state : ReaderState} {lead : List Extra} {offset : Nat}
    {step : LexStep} (before : ∀ extra ∈ lead, extra.stop ≤ offset) :
    ∀ token ∈ step.tokens state lead offset, token.EndsBy (offset + step.size) := by
  intro token member
  cases step with
  | blank size => cases member
  | extra filler size => cases member
  | lexeme shape spelling size frames =>
      obtain rfl := List.mem_singleton.mp member
      exact ⟨Nat.le_add_right _ _, Nat.le_refl _,
        fun extra member => (before extra member).trans (Nat.le_add_right _ _)⟩

/-- The extras of a step end where the step ends. -/
theorem LexStep.lead_endsBy {lead : List Extra} {offset : Nat} {step : LexStep}
    (before : ∀ extra ∈ lead, extra.stop ≤ offset) :
    ∀ extra ∈ step.lead lead offset, extra.stop ≤ offset + step.size := by
  intro extra member
  cases step with
  | blank size => exact (before extra member).trans (Nat.le_add_right _ _)
  | extra filler size =>
      rcases List.mem_append.mp member with member | member
      · exact (before extra member).trans (Nat.le_add_right _ _)
      · obtain rfl := List.mem_singleton.mp member
        exact Nat.le_refl _
  | lexeme shape spelling size frames => cases member

/-- Up to a place between two tokens the reader does the same in both texts. -/
theorem Reaches.common {state : ReaderState} {front after other : List Char}
    (sound : WellNested state.frames) (reaches : Reaches after state front)
    (reaches' : Reaches other state front) (slash : other.head? = some '/')
    {lead : List Extra} {offset : Nat} (before : ∀ extra ∈ lead, extra.stop ≤ offset) :
    ∃ early last rest, last.inCode = true ∧ WellNested last.frames ∧
      (∀ token ∈ early, token.EndsBy (offset + front.length)) ∧
      (∀ extra ∈ rest, extra.stop ≤ offset + front.length) ∧
      ∀ added, added = after ∨ added = other →
        tokensAt state lead offset (front ++ added) =
          early ++ tokensAt last rest (offset + front.length) added := by
  induction reaches generalizing lead offset with
  | @here state code =>
      exact ⟨[], state, lead, code, sound, by simp, by simpa using before,
        fun added _ => by simp⟩
  | @step state front filled whole inside further inductionHypothesis =>
      have reaches : Reaches after state front := .step filled whole inside further
      have same := lexStep_same sound filled reaches reaches' slash
      have further' := (reaches'.goes filled).2.2
      rw [same] at further'
      have good := lexStep_sound sound (by simp [filled] : front ++ after ≠ [])
      obtain ⟨early, last, rest, code, nested, early', rest', reads⟩ :=
        inductionHypothesis (good.state sound _) further' (LexStep.lead_endsBy before)
      have length : offset + (lexStep state (front ++ after)).size +
          (front.drop (lexStep state (front ++ after)).size).length = offset + front.length := by
        rw [List.length_drop]
        omega
      rw [length] at early' rest' reads
      refine ⟨(lexStep state (front ++ after)).tokens state lead offset ++ early, last, rest, code,
        nested, ?_, rest', fun added is => ?_⟩
      · intro token member
        rcases List.mem_append.mp member with member | member
        · exact (LexStep.tokens_endsBy before token member).mono (by omega)
        · exact early' token member
      · have step : lexStep state (front ++ added) = lexStep state (front ++ after) := by
          rcases is with rfl | rfl
          · rfl
          · exact same
        rw [tokensAt_step sound (by simp [filled]), step, whole, List.append_assoc, ← reads added is,
          List.take_append_of_le_length inside, List.drop_append_of_le_length inside]
        rfl

/-- A block comment with this text. -/
def blockComment (body : List Char) : List Char := ['/', '*'] ++ body ++ ['*', '/']

theorem blockComment_length (body : List Char) : (blockComment body).length = body.length + 4 := by
  simp [blockComment]

/-- A block comment ends at the first mark that closes it. -/
theorem blockCommentLength?_body {body : List Char} (closed : ¬['*', '/'] <:+: body)
    (after : List Char) :
    blockCommentLength? (body ++ '*' :: '/' :: after) = some (body.length + 2) := by
  induction body with
  | nil => rfl
  | cons c rest inductionHypothesis =>
      have inner : ¬['*', '/'] <:+: rest :=
        fun inside => closed (inside.trans (List.suffix_cons c rest).isInfix)
      rw [List.cons_append, blockCommentLength?_cons, inductionHypothesis inner]
      · simp
      · rintro ⟨others, rfl, slash⟩
        cases rest with
        | nil => simp at slash
        | cons next rest =>
            obtain ⟨rfl, -⟩ := List.cons.inj slash
            exact closed ⟨[], rest, rfl⟩

/-- In code a block comment is an extra in front of the next token. -/
theorem tokensAt_comment {state : ReaderState} (sound : WellNested state.frames)
    (code : state.inCode = true) {body : List Char} (closed : ¬['*', '/'] <:+: body)
    (lead : List Extra) (offset : Nat) (after : List Char) :
    tokensAt state lead offset (blockComment body ++ after) =
      tokensAt state
        (lead ++ [⟨.blockComment, offset, offset + (blockComment body).length⟩])
        (offset + (blockComment body).length) after := by
  have shape : blockComment body ++ after = '/' :: '*' :: (body ++ '*' :: '/' :: after) := by
    simp [blockComment]
  have step : lexStep state (blockComment body ++ after) =
      .extra .blockComment (blockComment body).length := by
    rw [lexStep_code code, shape, codeStep, blockCommentLength?_body closed, blockComment_length]
    simp only [LexStep.extra.injEq, true_and]
    omega
  have operand : (state.operand && Filler.blockComment != .markup) = state.operand :=
    Bool.and_true _
  rw [tokensAt_step sound (by simp [shape]), step]
  simp only [LexStep.tokens, LexStep.isBroken, LexStep.size, LexStep.state, LexStep.lead,
    List.nil_append, Bool.false_eq_true, if_false, List.drop_left, operand]

/-- The tokens of one text at two offsets, with other extras in front of the first. -/
inductive Moved (offset distance : Nat) (lead lead' : List Extra) :
    List Token → List Token → Prop where
  | mk {token : Token} {late : List Token} (begins : token.BeginsAfter offset)
      (others : ∀ token ∈ late, token.BeginsAfter offset) :
      Moved offset distance lead lead' (token.behind lead :: late)
        ((token.shift distance).behind lead' :: late.map (Token.shift distance))

/-- A token that begins after a place begins after every earlier one. -/
theorem Token.BeginsAfter.mono {place earlier : Nat} {token : Token}
    (begins : token.BeginsAfter place) (le : earlier ≤ place) : token.BeginsAfter earlier where
  start := le.trans begins.start
  stop := le.trans begins.stop
  lead extra member := le.trans (begins.lead extra member)

section

variable {offset distance : Nat} {lead lead' : List Extra} {tokens tokens' : List Token}

/-- Tokens that are moved after a place are moved after every earlier one. -/
theorem Moved.earlier {later : Nat} (moved : Moved later distance lead lead' tokens tokens')
    (le : offset ≤ later) : Moved offset distance lead lead' tokens tokens' := by
  cases moved with
  | mk begins others => exact .mk (begins.mono le) fun token member => (others token member).mono le

/-- An extra that is read in both texts counts among the moved ones. -/
theorem Moved.extra {extra : Extra} (after : offset ≤ extra.stop)
    (moved : Moved offset distance (lead ++ [extra]) (lead' ++ [extra.shift distance])
      tokens tokens') : Moved offset distance lead lead' tokens tokens' := by
  cases moved with
  | @mk token late begins others =>
      have front : (token.behind [extra]).BeginsAfter offset := by
        refine ⟨begins.start, begins.stop, fun other member => ?_⟩
        rcases List.mem_cons.mp member with rfl | member
        · exact after
        · exact begins.lead other member
      have moved := @Moved.mk offset distance lead lead' _ _ front others
      rw [Token.shift_behind, ← Token.behind_append, ← Token.behind_append] at moved
      exact moved

/-- A token of a step is moved with all that follow. -/
theorem moved_token (state : ReaderState) (same : hasMarkup lead' = hasMarkup lead)
    (shape : Shape) (spelling : String) (size : Nat) {late : List Token}
    (others : ∀ token ∈ late, token.BeginsAfter offset) :
    Moved offset distance lead lead' (makeToken state lead offset shape spelling size :: late)
      (makeToken state lead' (offset + distance) shape spelling size ::
        late.map (Token.shift distance)) := by
  let token : Token := ⟨⟨shape, spelling, hasMarkup lead && breaksStatement state.frames⟩, [],
    offset, offset + size⟩
  have begins : token.BeginsAfter offset := ⟨Nat.le_refl _, Nat.le_add_right _ _, by simp [token]⟩
  have here : makeToken state lead offset shape spelling size = token.behind lead := by
    simp [makeToken, Token.behind, token]
  have there : makeToken state lead' (offset + distance) shape spelling size =
      (token.shift distance).behind lead' := by
    simp [makeToken, Token.behind, Token.shift, token, same, Nat.add_right_comm]
  rw [here, there]
  exact .mk begins others

/-- What is read after a lexeme has no extras in front that were read before. -/
theorem Moved.row (moved : Moved offset distance [] [] tokens tokens') :
    (∀ token ∈ tokens, token.BeginsAfter offset) ∧ tokens' = tokens.map (Token.shift distance) := by
  cases moved with
  | mk begins others => exact ⟨List.forall_mem_cons.mpr ⟨begins, others⟩, rfl⟩

end

/-- Later in a text and with other extras in front the same tokens are read. -/
theorem tokensFrom_moved {state : ReaderState} {lead lead' : List Extra} (offset distance : Nat)
    (same : hasMarkup lead' = hasMarkup lead) (fuel : Nat) (cs : List Char) :
    Moved offset distance lead lead' (tokensFrom state lead offset fuel cs)
      (tokensFrom state lead' (offset + distance) fuel cs) := by
  have none : ∀ token ∈ ([] : List Token), token.BeginsAfter offset := by simp
  induction fuel generalizing state lead lead' offset cs with
  | zero => exact moved_token state same .ending "" 0 none
  | succ fuel inductionHypothesis =>
      by_cases empty : cs = []
      · subst empty
        exact moved_token state same .ending "" 0 none
      · rw [tokensFrom_step _ _ _ _ empty, tokensFrom_step _ _ _ _ empty]
        have next (state : ReaderState) {lead lead' : List Extra} (size : Nat)
            (same : hasMarkup lead' = hasMarkup lead) := by
          have moved := @inductionHypothesis state lead lead' (offset + size) same (cs.drop size)
            (by simp)
          rw [Nat.add_right_comm] at moved
          exact moved.earlier (Nat.le_add_right offset size)
        cases step : lexStep state cs with
        | blank size => exact next state size same
        | extra filler size =>
            let extra : Extra := ⟨filler, offset, offset + size⟩
            have moved : extra.shift distance =
                ⟨filler, offset + distance, offset + distance + size⟩ := by
              simp [extra, Extra.shift, Nat.add_right_comm]
            have same' : hasMarkup (lead' ++ [extra.shift distance]) =
                hasMarkup (lead ++ [extra]) := by
              simp only [hasMarkup, List.any_append, List.any_cons, List.any_nil] at same ⊢
              rw [same]
              rfl
            have stops : offset ≤ extra.stop := Nat.le_add_right offset size
            refine Moved.extra stops ?_
            have later := next ((LexStep.extra filler size).state state (cs.take size)) size same'
            rw [moved] at later ⊢
            exact later
        | lexeme shape spelling size frames =>
            by_cases broken : (LexStep.lexeme shape spelling size frames).isBroken
            · rw [broken]
              exact moved_token state same shape spelling size none
            · rw [if_neg broken, if_neg broken]
              obtain ⟨begins, moved⟩ := (next ((LexStep.lexeme shape spelling size frames).state state
                (cs.take size)) size (rfl : hasMarkup [] = hasMarkup [])).row
              have both : Moved offset distance lead lead' _ _ :=
                moved_token state same shape spelling size begins
              rw [← moved] at both
              exact both

/-- A row of tokens and the row with a comment put in front of one of them: the tokens before it
stay, and that one is moved with all that follow. -/
inductive Rows (place distance : Nat) : List Token → List Token → Prop where
  | gap {before : List Extra} {token : Token} {late : List Token}
      (ends : ∀ extra ∈ before, extra.stop ≤ place) (begins : token.BeginsAfter place)
      (others : ∀ token ∈ late, token.BeginsAfter place) :
      Rows place distance (token.behind before :: late)
        ((token.shift distance).behind (before ++ [⟨.blockComment, place, place + distance⟩]) ::
          late.map (Token.shift distance))
  | early {token : Token} {rest rest' : List Token} (ends : token.EndsBy place)
      (rows : Rows place distance rest rest') :
      Rows place distance (token :: rest) (token :: rest')

/-- The tokens before the comment stay. -/
theorem Rows.append {place distance : Nat} {early rest rest' : List Token}
    (ends : ∀ token ∈ early, token.EndsBy place) (rows : Rows place distance rest rest') :
    Rows place distance (early ++ rest) (early ++ rest') := by
  induction early with
  | nil => exact rows
  | cons token early inductionHypothesis =>
      obtain ⟨first, others⟩ := List.forall_mem_cons.mp ends
      exact .early first (inductionHypothesis others)

/-- Tokens that are moved behind a comment make a row with it. -/
theorem Moved.rows {place distance : Nat} {before : List Extra} {tokens tokens' : List Token}
    (ends : ∀ extra ∈ before, extra.stop ≤ place)
    (moved : Moved place distance before
      (before ++ [⟨.blockComment, place, place + distance⟩]) tokens tokens') :
    Rows place distance tokens tokens' := by
  cases moved with
  | mk begins others => exact .gap ends begins others

/-- The reader comes to a place between two texts in code, with no token across it. -/
structure Between (before after : List Char) : Prop where
  markup : markupLength (before ++ after) ≤ before.length
  reaches : Reaches after ⟨[], false, false⟩ (before.drop (markupLength (before ++ after)))

/-- The steps of the reader, as far as the fuel goes. -/
def reachesIn (after : List Char) : Nat → ReaderState → List Char → Bool
  | _, state, [] => state.inCode
  | 0, _, _ :: _ => false
  | fuel + 1, state, c :: front =>
    let step := lexStep state (c :: front ++ after)
    !step.isBroken && step.size ≤ (c :: front).length &&
      reachesIn after fuel (step.state state ((c :: front).take step.size))
        ((c :: front).drop step.size)

theorem wellNested_start : WellNested (⟨[], false, false⟩ : ReaderState).frames := trivial

/-- At its end the reader has come to the place, if it is in code. -/
theorem reaches_nil {after : List Char} {state : ReaderState} :
    Reaches after state [] ↔ state.inCode = true := by
  constructor
  · intro reaches
    cases reaches with
    | here code => exact code
    | step filled => exact absurd rfl filled
  · exact .here

/-- With enough fuel the steps tell whether the reader comes to the place. -/
theorem reachesIn_iff {after front : List Char} {state : ReaderState} {fuel : Nat}
    (sound : WellNested state.frames) (enough : front.length ≤ fuel) :
    reachesIn after fuel state front = true ↔ Reaches after state front := by
  induction fuel generalizing state front with
  | zero =>
      obtain rfl := List.eq_nil_of_length_eq_zero (Nat.le_zero.mp enough)
      exact reaches_nil.symm
  | succ fuel inductionHypothesis =>
      cases front with
      | nil => exact reaches_nil.symm
      | cons c front =>
          have good := lexStep_sound sound (by simp : c :: front ++ after ≠ [])
          have shorter : ((c :: front).drop (lexStep state (c :: front ++ after)).size).length ≤
              fuel := by
            have positive := good.positive
            rw [List.length_drop]
            omega
          have further := inductionHypothesis (good.state sound ((c :: front).take
            (lexStep state (c :: front ++ after)).size)) shorter
          simp only [reachesIn, Bool.and_eq_true, Bool.not_eq_true', decide_eq_true_eq, further]
          constructor
          · rintro ⟨⟨whole, inside⟩, further⟩
            exact .step (by simp) whole inside further
          · intro reaches
            obtain ⟨whole, inside, further⟩ := reaches.goes (by simp)
            exact ⟨⟨whole, inside⟩, further⟩

instance (before after : List Char) : Decidable (Between before after) :=
  decidable_of_iff (markupLength (before ++ after) ≤ before.length ∧
    reachesIn after before.length ⟨[], false, false⟩
      (before.drop (markupLength (before ++ after))) = true)
    ⟨fun both => ⟨both.1, (reachesIn_iff wellNested_start (by simp)).mp both.2⟩,
      fun between => ⟨between.markup, (reachesIn_iff wellNested_start (by simp)).mpr between.reaches⟩⟩

/-- The tokens of a file are those behind the text before its code. -/
theorem tokens_eq (text : List Char) : tokens text =
    tokensAt ⟨[], false, false⟩ [] (markupLength text) (text.drop (markupLength text)) :=
  tokensFrom_fuel wellNested_start _ _ (by rw [List.length_drop]; omega) (Nat.lt_succ_self _)

/-- A comment that is read between two tokens of code comes in front of the second. -/
theorem rows_comment {before body after : List Char} (closed : ¬['*', '/'] <:+: body)
    (between : Between before after) (between' : Between before (blockComment body ++ after)) :
    Rows before.length (blockComment body).length (tokens (before ++ after))
      (tokens (before ++ (blockComment body ++ after))) := by
  have slash : (blockComment body ++ after).head? = some '/' := rfl
  have markup : markupLength (before ++ after) =
      markupLength (before ++ (blockComment body ++ after)) :=
    settled_markupLength.same between.markup between'.markup
  have reaches' := between'.reaches
  rw [← markup] at reaches'
  have inside := between.markup
  have none : ∀ extra ∈ ([] : List Extra), extra.stop ≤ markupLength (before ++ after) := by simp
  obtain ⟨early, last, rest, code, nested, ends, rests, reads⟩ :=
    between.reaches.common wellNested_start reaches' slash none
  have place : markupLength (before ++ after) +
      (before.drop (markupLength (before ++ after))).length = before.length := by
    rw [List.length_drop]
    omega
  rw [place] at ends rests reads
  rw [tokens_eq, tokens_eq, ← markup, List.drop_append_of_le_length inside,
    List.drop_append_of_le_length inside, reads _ (.inl rfl), reads _ (.inr rfl),
    tokensAt_comment nested code closed]
  refine Rows.append ends ?_
  have same : hasMarkup (rest ++
      [⟨.blockComment, before.length, before.length + (blockComment body).length⟩]) =
        hasMarkup rest := by
    simp [hasMarkup]
  exact (tokensFrom_moved before.length (blockComment body).length same
    (after.length + 1) after).rows rests

end Untranslated.Php
