/-
This file tells the quoted texts of a program by their characters. The text of a literal has no
interpolation, and the text of a template has one.
-/

import Untranslated.Proofs.Php.Leaves
import Untranslated.Proofs.Php.Lexer.Interpolated

namespace Untranslated.Php

/-- A token is the step of the reader at its place, and the tokens after it are read from there. -/
inductive ReadsAt (text : List Char) (spot : Spot) (after : List Spot) : Prop where
  | intro {state : ReaderState} {size : Nat} {frames : List Frame} {fuel : Nat}
      (sound : WellNested state.frames) (filled : text.drop spot.start ≠ [])
      (step : lexStep state (text.drop spot.start) =
        .lexeme spot.lexeme.shape spot.lexeme.spelling size frames)
      (stop : spot.stop = spot.start + size)
      (further : spot.lexeme.shape ≠ .broken → after =
        (tokensFrom ⟨frames, endsOperand spot.lexeme.shape spot.lexeme.spelling,
            spot.lexeme.shape == .templateText && endsLine ((text.drop spot.start).take size)⟩
          [] spot.stop fuel (text.drop spot.stop)).map Token.spot) : ReadsAt text spot after

/-- A token has at least one character. -/
theorem ReadsAt.positive {text : List Char} {spot : Spot} {after : List Spot}
    (reads : ReadsAt text spot after) : spot.start < spot.stop := by
  obtain ⟨sound, filled, step, stop, -⟩ := reads
  have positive := (lexStep_sound sound filled).positive
  rw [step, LexStep.size] at positive
  omega

section

variable {text : List Char} {state : ReaderState} {lead : List Extra} {offset fuel : Nat}
  {before after : List Spot} {spot : Spot}

/-- The only token at the end of a text is its ending. -/
theorem ending_only (row : [makeToken state lead offset .ending "" 0].map Token.spot =
    before ++ spot :: after) : spot.lexeme.shape = .ending := by
  have member : spot ∈ [makeToken state lead offset .ending "" 0].map Token.spot := by simp [row]
  rw [List.mem_singleton.mp member]
  rfl

/-- All tokens but the last are read where they stand. -/
theorem tokensFrom_readsAt (sound : WellNested state.frames)
    (row : (tokensFrom state lead offset fuel (text.drop offset)).map Token.spot =
      before ++ spot :: after) (further : spot.lexeme.shape ≠ .ending) :
    ReadsAt text spot after := by
  induction fuel generalizing state lead offset before with
  | zero => exact absurd (ending_only row) further
  | succ fuel inductionHypothesis =>
      by_cases filled : text.drop offset = []
      · rw [filled] at row
        exact absurd (ending_only row) further
      · have next := (lexStep_sound sound filled).state sound
        rw [tokensFrom_step _ _ _ _ filled, List.drop_drop, List.map_append] at row
        cases step : lexStep state (text.drop offset) with
        | blank size =>
            rw [step] at row
            exact inductionHypothesis sound row
        | extra filler size =>
            rw [step] at row next
            exact inductionHypothesis (next []) row
        | lexeme shape spelling size frames =>
            rw [step] at row next
            -- The token of the step comes first, and none comes after a broken one.
            rcases before with _ | ⟨first, before⟩
            · obtain ⟨rfl, rest⟩ := List.cons.inj row
              refine @ReadsAt.intro _ _ _ state size frames fuel sound filled step rfl ?_
              intro unbroken
              have goes : (LexStep.lexeme shape spelling size frames).isBroken = false := by
                cases shape <;> first | rfl | exact absurd rfl unbroken
              rw [goes] at rest
              exact rest.symm
            · obtain ⟨-, rest⟩ := List.cons.inj row
              split at rest
              · simp at rest
              · exact inductionHypothesis (next _) rest

/-- No token begins before the place that the reader has come to. -/
theorem tokensFrom_start (sound : WellNested state.frames) (cs : List Char) :
    ∀ token ∈ tokensFrom state lead offset fuel cs, offset ≤ token.start := by
  induction fuel generalizing state lead offset cs with
  | zero => simp [tokensFrom, makeToken]
  | succ fuel inductionHypothesis =>
      by_cases filled : cs = []
      · subst filled
        simp [tokensFrom, makeToken]
      · have next := (lexStep_sound sound filled).state sound
        rw [tokensFrom_step _ _ _ _ filled]
        intro token member
        rcases List.mem_append.mp member with member | member
        · cases step : lexStep state cs with
          | blank size => simp [step, LexStep.tokens] at member
          | extra filler size => simp [step, LexStep.tokens] at member
          | lexeme shape spelling size frames =>
              rw [step] at member
              rw [List.mem_singleton.mp member]
              exact Nat.le_refl offset
        · split at member
          · cases member
          · exact Nat.le_trans (Nat.le_add_right _ _) (inductionHypothesis (next _) _ token member)

/-- An interpolation begins with a mark. -/
theorem quotedTextStep_mark {quotation : Quotation} {cs : List Char}
    (found : piece quotation state.lineStart cs = (0, .interpolation)) :
    ∃ spelling size frames, quotedTextStep quotation state cs =
      .lexeme .mark spelling size frames := by
  cases cs with
  | nil => cases found
  | cons c rest =>
      rw [quotedTextStep_interpolation found]
      split
      · split <;> exact ⟨_, _, _, rfl⟩
      · exact ⟨_, _, _, rfl⟩

/-- After a token of another shape the rest of the tokens is read behind it. -/
theorem row_behind {shape : Shape} {spelling : String} {size : Nat} {frames : List Frame}
    (filled : text.drop offset ≠ [])
    (step : lexStep state (text.drop offset) = .lexeme shape spelling size frames)
    (row : (tokensFrom state lead offset fuel (text.drop offset)).map Token.spot =
      before ++ spot :: after) (other : spot.lexeme.shape ≠ shape)
    (further : spot.lexeme.shape ≠ .ending) : ∃ fuel before,
      (tokensFrom ⟨frames, endsOperand shape spelling,
          shape == .templateText && endsLine ((text.drop offset).take size)⟩
        [] (offset + size) fuel (text.drop (offset + size))).map Token.spot =
          before ++ spot :: after := by
  cases fuel with
  | zero => exact absurd (ending_only row) further
  | succ fuel =>
      rw [tokensFrom_step _ _ _ _ filled, step, List.drop_drop] at row
      rcases before with _ | ⟨first, before⟩
      · obtain ⟨rfl, -⟩ := List.cons.inj row
        exact absurd rfl other
      · obtain ⟨-, rest⟩ := List.cons.inj row
        change List.map Token.spot (if _ then [] else _) = before ++ spot :: after at rest
        split at rest
        · simp at rest
        · exact ⟨fuel, before, rest⟩

section

variable {quotation : Quotation} {outer : List Frame}

/-- What closes a template that has an interpolation here stands behind the mark of it. -/
theorem closing_behind_mark (sound : WellNested state.frames)
    (top : state.frames = .quoted quotation :: outer)
    (found : piece quotation state.lineStart (text.drop offset) = (0, .interpolation))
    (row : (tokensFrom state lead offset fuel (text.drop offset)).map Token.spot =
      before ++ spot :: after) (closes : spot.lexeme.shape = .templateClosing) :
    offset + 2 ≤ spot.stop := by
  have filled := filled_of_interpolation found
  obtain ⟨spelling, size, frames, step⟩ := quotedTextStep_mark found
  rw [← lexStep_quoted top] at step
  have good := lexStep_sound sound filled
  obtain ⟨fuel', before', rest⟩ := row_behind filled step row (by simp [closes]) (by simp [closes])
  have member : spot ∈ before' ++ spot :: after := by simp
  rw [← rest] at member
  obtain ⟨token, within, rfl⟩ := List.mem_map.mp member
  rw [step] at good
  have start := tokensFrom_start (good.state sound []) _ token within
  have positive : 0 < size := good.positive
  have further := (tokensFrom_readsAt sound row (by simp [closes])).positive
  simp only [Token.spot] at further ⊢
  omega

/-- What closes a template stands behind the first interpolation of it. -/
theorem closing_behind (sound : WellNested state.frames)
    (top : state.frames = .quoted quotation :: outer) {plain : Nat}
    (found : piece quotation state.lineStart (text.drop offset) = (plain, .interpolation))
    (row : (tokensFrom state lead offset fuel (text.drop offset)).map Token.spot =
      before ++ spot :: after) (closes : spot.lexeme.shape = .templateClosing) :
    offset + plain + 2 ≤ spot.stop := by
  by_cases here : plain = 0
  · subst here
    exact closing_behind_mark sound top found row closes
  · have filled := filled_of_interpolation found
    -- The plain text is a token of its own, and the interpolation begins behind it.
    have step : lexStep state (text.drop offset) =
        .lexeme .templateText "" plain state.frames := by
      obtain ⟨plain, rfl⟩ := Nat.exists_eq_succ_of_ne_zero here
      rw [lexStep_quoted top]
      unfold quotedTextStep
      rw [found]
      rfl
    obtain ⟨fuel', before', rest⟩ := row_behind filled step row (by simp [closes])
      (by simp [closes])
    have behind := piece_end found (Nat.pos_of_ne_zero here)
    rw [List.drop_drop] at behind
    have later : WellNested (ReaderState.frames
        ⟨state.frames, false, endsLine ((text.drop offset).take plain)⟩) := sound
    exact closing_behind_mark later top behind rest closes

end

end

/-- What is known of the text of a quoted node. -/
structure Spelled (text : List Char) (node : Node) : Prop where
  singleQuoted : node.kind = .singleQuoted → ∃ letter body, IsLetter letter ∧
    slice text node.start node.stop = letter ++ '\'' :: (body ++ ['\''])
  doubleQuoted : node.kind = .doubleQuoted → ∃ letter body, IsLetter letter ∧
    slice text node.start node.stop = letter ++ '"' :: (body ++ ['"']) ∧
    interpolated (slice text node.start node.stop) = false
  heredoc : node.kind = .heredoc → interpolated (slice text node.start node.stop) = false
  template : node.kind = .template → interpolated (slice text node.start node.stop) = true

section

variable {text : List Char} {spot : Spot} {after : List Spot}

/-- The text of a token is what the step of the reader takes. -/
theorem ReadsAt.spells (reads : ReadsAt text spot after) : ∃ size frames,
    (LexStep.lexeme spot.lexeme.shape spot.lexeme.spelling size frames).Spells
      (text.drop spot.start) ∧
    slice text spot.start spot.stop = (text.drop spot.start).take size := by
  obtain ⟨sound, filled, step, stop, further⟩ := reads
  refine ⟨_, _, step ▸ lexStep_spells _ _, ?_⟩
  rw [slice, stop, Nat.add_sub_cancel_left]

/-- A text from the opening of a template to its closing has an interpolation. -/
theorem ReadsAt.interpolated {middle : List Spot} {closing : Spot}
    (reads : ReadsAt text spot (middle ++ closing :: after))
    (opens : spot.lexeme.shape = .templateOpening)
    (closes : closing.lexeme.shape = .templateClosing) :
    interpolated (slice text spot.start closing.stop) = true := by
  obtain @⟨state, size, frames, fuel, sound, filled, step, stop, further⟩ := reads
  have spells := lexStep_spells state (text.drop spot.start)
  have good := (lexStep_sound sound filled).frames step
  have row := further (by simp [opens])
  rw [step, opens] at spells
  obtain ⟨quotation, outer, plain, top, found, inert⟩ := spells
  rw [opens] at row
  have nested : WellNested (ReaderState.frames
      ⟨frames, false, Shape.templateOpening == .templateText &&
        endsLine ((text.drop spot.start).take size)⟩) := good
  rw [List.drop_drop, ← stop] at found
  have behind := closing_behind nested top found row.symm closes
  obtain ⟨count, enough⟩ : ∃ count, closing.stop - spot.start = size + count :=
    ⟨closing.stop - spot.stop, by omega⟩
  rw [slice, enough, List.take_add, interpolated_inert inert, List.drop_drop, ← stop]
  exact interpolated_piece found (by omega)

end

/-- The quoted texts of a file that is parsed are spelled as their kinds tell. -/
theorem parse_spelled {text : List Char} {path : Option Text} {program : Program}
    (parsed : parse text path = .ok program) :
    ∀ node ∈ program.root.preorder, Spelled program.source.masked node := by
  obtain ⟨tree, reads, rfl⟩ := parse_eq_ok.mp parsed
  obtain ⟨formed, isProgram⟩ := read_formed reads
  intro node inside
  have sits := toNode_sits formed isProgram (read_lexemes reads) node inside
  have readsAt {before : List Spot} {spot : Spot} {after : List Spot}
      (row : (tokens (mask text)).map Token.spot = before ++ spot :: after)
      (further : spot.lexeme.shape ≠ .ending) : ReadsAt (mask text) spot after := by
    have outside : WellNested (ReaderState.frames ⟨[], false, false⟩) := trivial
    exact tokensFrom_readsAt outside row further
  have literal (shape : Shape) (is : node.kind.shape? = some shape) (further : shape ≠ .ending) :
      ∃ size spelling frames,
        (LexStep.lexeme shape spelling size frames).Spells ((mask text).drop node.start) ∧
        slice (mask text) node.start node.stop = ((mask text).drop node.start).take size := by
    obtain ⟨spot, member, rfl, start, stop⟩ := sits.literal shape is
    obtain ⟨before, after, row⟩ := List.append_of_mem member
    obtain ⟨size, frames, spells, same⟩ := (readsAt row further).spells
    rw [start] at spells
    rw [start, stop] at same
    exact ⟨size, _, frames, spells, same⟩
  change Spelled (mask text) node
  constructor
  · intro is
    obtain ⟨size, spelling, frames, ⟨letter, body, isLetter, spelled⟩, same⟩ :=
      literal .singleQuoted (by rw [is]; rfl) (by decide)
    exact ⟨letter, body, isLetter, same.trans spelled⟩
  · intro is
    obtain ⟨size, spelling, frames, ⟨letter, body, isLetter, spelled, plain⟩, same⟩ :=
      literal .doubleQuoted (by rw [is]; rfl) (by decide)
    rw [same]
    exact ⟨letter, body, isLetter, spelled, plain⟩
  · intro is
    obtain ⟨size, spelling, frames, plain, same⟩ :=
      literal .heredoc (by rw [is]; rfl) (by decide)
    rw [same]
    exact plain
  · intro is
    obtain ⟨before, opening, middle, closing, after, encloses⟩ := sits.template is
    have reads := readsAt encloses.row (by simp [encloses.opens])
    have inside := reads.interpolated encloses.opens encloses.closes
    rwa [encloses.start, encloses.stop] at inside

end Untranslated.Php
