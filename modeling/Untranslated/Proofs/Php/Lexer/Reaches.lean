/-
This file proves that the tokens in front of a place between two tokens of code do not depend on
what follows the place.
-/

import Untranslated.Proofs.Php.Lexer.Steps

namespace Untranslated.Php

/-- Code is read where no quoted text and no variable in one is open. -/
def ReaderState.inCode (state : ReaderState) : Bool :=
  !state.frames.head?.any fun frame => frame.isQuoted || frame.isInner

/-- The reader comes to the end of a text in code, between two tokens, if this text follows. -/
inductive Reaches (after : List Char) : ReaderState → List Char → Prop where
  | here {state : ReaderState} (code : state.inCode = true) : Reaches after state []
  | step {state : ReaderState} {front : List Char} (filled : front ≠ [])
      (whole : (lexStep state (front ++ after)).isBroken = false)
      (inside : (lexStep state (front ++ after)).size ≤ front.length)
      (further : Reaches after
        ((lexStep state (front ++ after)).state state
          (front.take (lexStep state (front ++ after)).size))
        (front.drop (lexStep state (front ++ after)).size)) :
      Reaches after state front

/-- Outside of code the reader has a step to go. -/
theorem Reaches.filled {after front : List Char} {state : ReaderState}
    (reaches : Reaches after state front) (outside : state.inCode = false) : front ≠ [] := by
  cases reaches with
  | here code =>
      rw [outside] at code
      cases code
  | step filled => exact filled

/-- A reader that comes to the end of a text takes a step within the text before. -/
theorem Reaches.goes {after front : List Char} {state : ReaderState}
    (reaches : Reaches after state front) (filled : front ≠ []) :
    (lexStep state (front ++ after)).isBroken = false ∧
      (lexStep state (front ++ after)).size ≤ front.length ∧
      Reaches after ((lexStep state (front ++ after)).state state
          (front.take (lexStep state (front ++ after)).size))
        (front.drop (lexStep state (front ++ after)).size) := by
  cases reaches with
  | here => exact absurd rfl filled
  | step _ whole inside further => exact ⟨whole, inside, further⟩

/-- The end of a piece is settled by the text that the reader has come to the end of, or a hole
begins right there. -/
inductive Settles (quotation : Quotation) (lineStart : Bool) (front after : List Char) : Prop where
  | within (within : PieceWithin quotation front.length (front ++ after)
      (piece quotation lineStart (front ++ after)))
  | hole {size : Nat} (found : piece quotation lineStart (front ++ after) = (size, .interpolation))
      (last : size + 1 = front.length) (dollar : after.head? = some '$')

/-- The end of a piece is the same with two texts that settle it. -/
theorem settles_same {quotation : Quotation} {lineStart : Bool} {front after other : List Char}
    (sound : quotation.IsSound) (settles : Settles quotation lineStart front after)
    (settles' : Settles quotation lineStart front other) (slash : other.head? = some '/') :
    piece quotation lineStart (front ++ other) = piece quotation lineStart (front ++ after) ∧
      PieceWithin quotation front.length (front ++ after)
        (piece quotation lineStart (front ++ after)) ∧
      PieceWithin quotation front.length (front ++ other)
        (piece quotation lineStart (front ++ after)) := by
  cases settles with
  | within within =>
      have ends : EndsWord other := by simp only [EndsWord, slash]; rfl
      obtain ⟨same, within'⟩ := piece_within sound ends within
      exact ⟨same, within, within'⟩
  | hole found last dollar =>
      cases settles' with
      | within within' =>
          have ends : EndsWord after := by simp only [EndsWord, dollar]; rfl
          obtain ⟨same, within⟩ := piece_within sound ends within'
          rw [← same, found] at within
          simp only [PieceWithin] at within
          omega
      | hole _ _ dollar' =>
          rw [slash] at dollar'
          cases dollar'

/-- In a quotation a step is one of quoted text. -/
theorem lexStep_quoted {state : ReaderState} {quotation : Quotation} {outer : List Frame}
    (top : state.frames = .quoted quotation :: outer) (cs : List Char) :
    lexStep state cs = quotedTextStep quotation state cs := by
  simp only [lexStep, top]

theorem outside_quoted {state : ReaderState} {quotation : Quotation} {outer : List Frame}
    (top : state.frames = .quoted quotation :: outer) : state.inCode = false := by
  simp [ReaderState.inCode, top, Frame.isQuoted]

/-- A variable or a hole begins here. -/
theorem quotedTextStep_interpolation {state : ReaderState} {quotation : Quotation} {c : Char}
    {rest : List Char}
    (found : piece quotation state.lineStart (c :: rest) = (0, .interpolation)) :
    quotedTextStep quotation state (c :: rest) =
      if c = '$' then
        if rest.head? = some '\x7b' then .lexeme .mark "$\x7b" 2 (.hole :: state.frames)
        else .lexeme .mark "$" 1 (.variable :: state.frames)
      else .lexeme .mark "\x7b" 1 (.hole :: state.frames) := by
  simp only [quotedTextStep, found]
  split
  · rename_i others same
    obtain ⟨rfl, rfl⟩ := List.cons.inj same
    rfl
  · rename_i others different same
    obtain ⟨rfl, rfl⟩ := List.cons.inj same
    rw [if_pos rfl, if_neg]
    intro brace
    obtain ⟨others, rfl⟩ := List.head?_eq_some_iff.mp brace
    exact different others rfl
  · rename_i different
    rw [if_neg]
    rintro rfl
    exact different rest rfl

/-- The end of a quoted text or an interpolation that stands right here is settled. -/
theorem Reaches.settles_here {after front : List Char} {state : ReaderState}
    {quotation : Quotation} {outer : List Frame} {ending : PieceEnd}
    (reaches : Reaches after state front) (top : state.frames = .quoted quotation :: outer)
    (found : piece quotation state.lineStart (front ++ after) = (0, ending)) :
    Settles quotation state.lineStart front after := by
  have filled := reaches.filled (outside_quoted top)
  obtain ⟨whole, inside, further⟩ := reaches.goes filled
  rw [lexStep_quoted top] at whole inside further
  rcases piece_zero found with rfl | ⟨-, rfl⟩ | ⟨begins, rfl⟩
  · simp [quotedTextStep, found, LexStep.isBroken] at whole
  · refine .within ?_
    rw [found]
    simpa [quotedTextStep, found, LexStep.size, PieceWithin] using inside
  · obtain ⟨c, rest, rfl⟩ := List.exists_cons_of_ne_nil filled
    cases rest with
    | cons next rest =>
        refine .within ?_
        rw [found]
        simp [PieceWithin]
    | nil =>
        -- A variable goes on beyond its dollar sign, so that a hole begins here.
        refine .hole found rfl ?_
        rw [List.cons_append, List.nil_append] at *
        unfold beginsInterpolation at begins
        split at begins
        · rename_i next others same
          obtain ⟨rfl, rfl⟩ := List.cons.inj same
          rw [quotedTextStep_interpolation found, if_pos rfl] at inside further
          split at inside
          · simp [LexStep.size] at inside
          · rename_i variable'
            rw [if_neg variable'] at further
            exact absurd rfl (further.filled rfl)
        · rename_i others same
          obtain ⟨rfl, rfl⟩ := List.cons.inj same
          rfl
        · cases begins

/-- A reader that comes to code from a quotation has settled the end of the piece. -/
theorem Reaches.settles {after front : List Char} {state : ReaderState}
    {quotation : Quotation} {outer : List Frame}
    (reaches : Reaches after state front) (top : state.frames = .quoted quotation :: outer) :
    Settles quotation state.lineStart front after := by
  have filled := reaches.filled (outside_quoted top)
  obtain ⟨whole, inside, further⟩ := reaches.goes filled
  rw [lexStep_quoted top] at whole inside further
  cases found : piece quotation state.lineStart (front ++ after) with
  | mk size ending =>
      cases size with
      | zero => exact reaches.settles_here top found
      | succ size =>
          have step : quotedTextStep quotation state (front ++ after) =
              .lexeme .templateText "" (size + 1) state.frames := by
            cases ending with
            | unclosed => simp [quotedTextStep, found, LexStep.isBroken] at whole
            | closed | interpolation => simp only [quotedTextStep, found]
          rw [step] at inside further
          have ends := piece_end found (Nat.succ_pos size)
          simp only [LexStep.size] at inside further
          rw [List.take_append_of_le_length inside, List.drop_append_of_le_length inside] at ends
          have length := List.length_drop (i := size + 1) (l := front)
          have line : (LexStep.state state (front.take (size + 1))
              (.lexeme .templateText "" (size + 1) state.frames)).lineStart =
                endsLine (front.take (size + 1)) :=
            Bool.true_and _
          cases further.settles_here top ends with
          | within within =>
              refine .within ?_
              rw [found]
              rw [line, ends, length, ← List.drop_append_of_le_length inside] at within
              simpa using (PieceWithin.drop_iff inside (0, ending)).mpr within
          | hole found' last dollar =>
              rw [line, ends] at found'
              obtain ⟨rfl, rfl⟩ := Prod.mk.inj found'
              exact .hole found (by omega) dollar

section

variable {state : ReaderState} {front after other : List Char}

theorem endsWord_slash (slash : other.head? = some '/') : EndsWord other := by
  simp only [EndsWord, slash]
  rfl

/-- A step in a quotation before a place does not depend on what follows the place. -/
theorem quotedTextStep_same {quotation : Quotation} {outer : List Frame}
    (top : state.frames = .quoted quotation :: outer) (sound : quotation.IsSound)
    (reaches : Reaches after state front) (reaches' : Reaches other state front)
    (slash : other.head? = some '/') :
    quotedTextStep quotation state (front ++ other) =
      quotedTextStep quotation state (front ++ after) := by
  obtain ⟨same, within, -⟩ :=
    settles_same sound (reaches.settles top) (reaches'.settles top) slash
  cases found : piece quotation state.lineStart (front ++ after) with
  | mk size ending =>
      rw [found] at within
      cases ending with
      | unclosed => exact within.elim
      | closed =>
          simp only [quotedTextStep, same, found]
          cases size with
          | succ size => rfl
          | zero =>
              have length := closingLength_within sound (endsWord_slash slash) found within
              simp only [List.drop_zero] at length
              simp only [length]
      | interpolation =>
          cases size with
          | succ size => simp only [quotedTextStep, same, found]
          | zero =>
              match front with
              | [] | [_] => simp [PieceWithin] at within
              | c :: next :: rest =>
                  rw [found] at same
                  exact (quotedTextStep_interpolation same).trans
                    (quotedTextStep_interpolation found).symm

/-- A run within a text does not depend on what follows the text. -/
theorem takeWhile_same {test : Char → Bool}
    (inside : ((front ++ after).takeWhile test).length ≤ front.length)
    (inside' : ((front ++ other).takeWhile test).length ≤ front.length) :
    (front ++ other).takeWhile test = (front ++ after).takeWhile test := by
  have length := (settled_takeWhile test).same inside inside'
  rw [List.prefix_iff_eq_take.mp (List.takeWhile_prefix test (l := front ++ other)),
    List.prefix_iff_eq_take.mp (List.takeWhile_prefix test (l := front ++ after)), ← length,
    List.take_append_of_le_length inside, List.take_append_of_le_length (length ▸ inside)]

/-- A step that gives a whole token inside of the text. -/
structure Within (front : List Char) (step : LexStep) : Prop where
  whole : step.isBroken = false
  inside : step.size ≤ front.length

/-- A step of a reader that comes to the end of a text lies within the text. -/
theorem Reaches.within (reaches : Reaches after state front) (filled : front ≠ []) :
    Within front (lexStep state (front ++ after)) :=
  ⟨(reaches.goes filled).1, (reaches.goes filled).2.1⟩

/-- A word within a text is not empty. -/
theorem wordStep_within {frames : List Frame} {cs : List Char}
    (within : Within front (wordStep frames cs)) :
    (cs.takeWhile isNamePart).length ≤ front.length ∧ cs.takeWhile isNamePart ≠ [] := by
  have whole := within.whole
  have inside := within.inside
  unfold wordStep at whole inside
  simp only at whole inside
  split at whole
  · cases whole
  · rename_i word
    rw [if_neg word] at inside
    exact ⟨inside, fun empty => word (by simp [empty])⟩

/-- A word is read in small letters. -/
theorem wordStep_word {frames : List Frame} {cs : List Char} (named : cs.takeWhile isNamePart ≠ []) :
    wordStep frames cs =
      .lexeme .word (String.ofList ((cs.takeWhile isNamePart).map lowerAscii))
        (cs.takeWhile isNamePart).length frames := by
  simp only [wordStep]
  rw [if_neg (by simpa using named)]

/-- A word within a text does not depend on what follows the text. -/
theorem wordStep_same {frames : List Frame} (within : Within front (wordStep frames (front ++ after)))
    (within' : Within front (wordStep frames (front ++ other))) :
    wordStep frames (front ++ other) = wordStep frames (front ++ after) := by
  have word := takeWhile_same (wordStep_within within).1 (wordStep_within within').1
  simp only [wordStep, word]
  split
  · rename_i empty
    exact absurd (List.isEmpty_iff.mp empty) (wordStep_within within).2
  · rfl

/-- A number within a text is measured within it. -/
theorem numberStep_within {frames : List Frame} {cs : List Char}
    (within : Within front (numberStep frames cs)) :
    0 < front.length ∧ integerLength cs ≤ front.length ∧ realLength cs ≤ front.length := by
  have inside := within.inside
  unfold numberStep at inside
  simp only at inside
  split at inside <;> simp only [LexStep.size] at inside <;> omega

/-- A number within a text does not depend on what follows the text. -/
theorem numberStep_same {frames : List Frame}
    (within : Within front (numberStep frames (front ++ after)))
    (within' : Within front (numberStep frames (front ++ other))) :
    numberStep frames (front ++ other) = numberStep frames (front ++ after) := by
  obtain ⟨-, integer, real⟩ := numberStep_within within
  obtain ⟨-, integer', real'⟩ := numberStep_within within'
  simp only [numberStep, settled_integerLength.same integer integer',
    settled_realLength.same real real']

/-- Whether the end of a piece is settled depends on the piece alone. -/
theorem Settles.congr {quotation : Quotation} {lineStart lineStart' : Bool}
    (settles : Settles quotation lineStart front after)
    (same : piece quotation lineStart' (front ++ after) =
      piece quotation lineStart (front ++ after)) : Settles quotation lineStart' front after := by
  cases settles with
  | within within => exact .within (same ▸ within)
  | hole found last dollar => exact .hole (same ▸ found) last dollar

/-- Documents are read line by line. -/
def Quotation.isDocument : Quotation → Bool
  | .document _ => true
  | _ => false

/-- A quotation is one token if its first piece is closed, and a template opens otherwise. -/
theorem quotedStep_eq (whole : Shape) (quotation : Quotation) (opening : Nat)
    (frames : List Frame) (cs : List Char) :
    quotedStep whole quotation opening frames cs =
      match piece quotation quotation.isDocument (cs.drop opening) with
      | (size, .closed) =>
        .lexeme whole "" (opening + size + closingLength quotation ((cs.drop opening).drop size))
          frames
      | (_, .interpolation) => .lexeme .templateOpening "" opening (.quoted quotation :: frames)
      | (_, .unclosed) => .lexeme .broken "" cs.length frames := by
  cases quotation <;> rfl

/-- A quoted text begins at an opening of the text. -/
theorem Reaches.settles_opening {whole : Shape} {quotation : Quotation} {opening : Nat}
    (reaches : Reaches after state front) (filled : front ≠ [])
    (is : lexStep state (front ++ after) =
      quotedStep whole quotation opening state.frames (front ++ after)) :
    opening ≤ front.length ∧
      Settles quotation quotation.isDocument (front.drop opening) after := by
  obtain ⟨complete, inside, further⟩ := reaches.goes filled
  rw [is, quotedStep_eq] at complete inside further
  cases found : piece quotation quotation.isDocument ((front ++ after).drop opening) with
  | mk size ending =>
      rw [found] at complete inside further
      cases ending with
      | unclosed => cases complete
      | closed =>
          simp only [LexStep.size] at inside
          have fits : opening ≤ front.length := by omega
          have length := List.length_drop (i := opening) (l := front)
          rw [List.drop_append_of_le_length fits] at found inside
          refine ⟨fits, .within ?_⟩
          rw [found]
          simp only [PieceWithin]
          omega
      | interpolation =>
          simp only [LexStep.size] at inside
          refine ⟨inside, ?_⟩
          rw [List.drop_append_of_le_length inside] at found
          have settles : Settles quotation false (front.drop opening) after := further.settles rfl
          refine settles.congr (piece_lineStart ?_)
          rw [Bool.eq_false_iff]
          intro closes
          have filled : front.drop opening ++ after ≠ [] := by
            intro empty
            rw [empty] at found
            cases found
          rw [piece_closed filled closes] at found
          cases found

/-- A quotation before a place does not depend on what follows the place. -/
theorem quotedStep_same {whole : Shape} {quotation : Quotation} {opening : Nat}
    (sound : quotation.IsSound) (filled : front ≠ []) (reaches : Reaches after state front)
    (reaches' : Reaches other state front) (slash : other.head? = some '/')
    (is : lexStep state (front ++ after) =
      quotedStep whole quotation opening state.frames (front ++ after))
    (is' : lexStep state (front ++ other) =
      quotedStep whole quotation opening state.frames (front ++ other)) :
    lexStep state (front ++ other) = lexStep state (front ++ after) := by
  obtain ⟨fits, settles⟩ := reaches.settles_opening filled is
  obtain ⟨-, settles'⟩ := reaches'.settles_opening filled is'
  obtain ⟨same, within, -⟩ := settles_same sound settles settles' slash
  rw [is, is', quotedStep_eq, quotedStep_eq, List.drop_append_of_le_length fits,
    List.drop_append_of_le_length fits, same]
  cases found : piece quotation quotation.isDocument (front.drop opening ++ after) with
  | mk size ending =>
      rw [found] at within
      cases ending with
      | unclosed => exact within.elim
      | interpolation => rfl
      | closed =>
          simp only
          rw [closingLength_within sound (endsWord_slash slash) found within]

/-- A document with a label in double quotes or without quotes is a heredoc. -/
theorem documentStep_heredoc {letter size : Nat} {label cs : List Char} {frames : List Frame}
    (opens : documentOpening? (cs.drop (letter + 3)) = some (size, label, false)) :
    documentStep letter frames cs =
      quotedStep .heredoc (.document label) (letter + 3 + size) frames cs := by
  simp [documentStep, opens]

/-- A document with a label in single quotes is a nowdoc. -/
theorem documentStep_nowdoc {letter size rest : Nat} {label cs : List Char} {frames : List Frame}
    (opens : documentOpening? (cs.drop (letter + 3)) = some (size, label, true))
    (closes : nowdocLength? label true (cs.drop (letter + 3 + size)) = some rest) :
    documentStep letter frames cs = .lexeme .nowdoc "" (letter + 3 + size + rest) frames := by
  simp [documentStep, opens, closes]

/-- An opening line that ends inside of a text opens the document, whatever follows. -/
theorem documentOpening?_front {letter size : Nat} {label : List Char} {isNowdoc : Bool}
    (opens : documentOpening? ((front ++ after).drop (letter + 3)) = some (size, label, isNowdoc))
    (fits : letter + 3 + size ≤ front.length) (slash : other.head? = some '/') :
    documentOpening? ((front ++ other).drop (letter + 3)) = some (size, label, isNowdoc) := by
  have length := List.length_drop (i := letter + 3) (l := front)
  rw [List.drop_append_of_le_length (by omega)] at opens ⊢
  exact documentOpening?_within opens (by omega) (.inr (by rw [slash]; decide))

/-- A document before a place does not depend on what follows the place. -/
theorem documentStep_same {letter : Nat} (filled : front ≠ []) (reaches : Reaches after state front)
    (reaches' : Reaches other state front) (slash : other.head? = some '/')
    (is : lexStep state (front ++ after) = documentStep letter state.frames (front ++ after))
    (is' : lexStep state (front ++ other) = documentStep letter state.frames (front ++ other)) :
    lexStep state (front ++ other) = lexStep state (front ++ after) := by
  obtain ⟨complete, inside⟩ := reaches.within filled
  cases opens : documentOpening? ((front ++ after).drop (letter + 3)) with
  | none =>
      rw [is] at complete
      simp only [documentStep, opens] at complete
      cases complete
  | some opening =>
      obtain ⟨size, label, isNowdoc⟩ := opening
      have sound := (documentOpening?_label opens).1
      cases isNowdoc with
      | false =>
          rw [documentStep_heredoc opens] at is
          have fits := (reaches.settles_opening filled is).1
          rw [documentStep_heredoc (documentOpening?_front opens fits slash)] at is'
          have own : (Quotation.document label).IsSound := sound
          exact quotedStep_same own filled reaches reaches' slash is is'
      | true =>
          cases closes : nowdocLength? label true ((front ++ after).drop (letter + 3 + size)) with
          | none =>
              rw [is] at complete
              simp only [documentStep, opens, closes] at complete
              cases complete
          | some rest =>
              rw [documentStep_nowdoc opens closes] at is
              rw [is] at inside
              simp only [LexStep.size] at inside
              have fits : letter + 3 + size ≤ front.length := by omega
              have length := List.length_drop (i := letter + 3 + size) (l := front)
              rw [List.drop_append_of_le_length fits] at closes
              have closes' :
                  nowdocLength? label true ((front ++ other).drop (letter + 3 + size)) =
                    some rest := by
                rw [List.drop_append_of_le_length fits]
                exact nowdocLength?_within sound (endsWord_slash slash) closes (by omega)
              rw [is, is', documentStep_nowdoc (documentOpening?_front opens fits slash) closes']

/-- A quotation within a text has its opening there. -/
theorem quotedStep_fits {whole : Shape} {quotation : Quotation} {opening : Nat}
    {frames : List Frame} {cs : List Char}
    (within : Within front (quotedStep whole quotation opening frames cs)) :
    opening ≤ front.length := by
  obtain ⟨complete, inside⟩ := within
  rw [quotedStep_eq] at complete inside
  split at inside
  · simp only [LexStep.size] at inside
    omega
  · exact inside
  · rename_i found
    rw [found] at complete
    cases complete

/-- A document within a text has its opening there. -/
theorem documentStep_fits {letter : Nat} {frames : List Frame} {cs : List Char}
    (within : Within front (documentStep letter frames cs)) : letter + 3 ≤ front.length := by
  have ⟨complete, inside⟩ := within
  cases opens : documentOpening? (cs.drop (letter + 3)) with
  | none =>
      simp only [documentStep, opens] at complete
      cases complete
  | some opening =>
      obtain ⟨size, label, isNowdoc⟩ := opening
      cases isNowdoc with
      | false =>
          rw [documentStep_heredoc opens] at within
          have fits := quotedStep_fits within
          omega
      | true =>
          cases closes : nowdocLength? label true (cs.drop (letter + 3 + size)) with
          | none =>
              simp only [documentStep, opens, closes] at complete
              cases complete
          | some rest =>
              rw [documentStep_nowdoc opens closes] at inside
              simp only [LexStep.size] at inside
              omega

/-- A text in single quotes within a text ends there. -/
theorem singleQuotedStep_within {opening : Nat} {frames : List Frame} {cs : List Char}
    (within : Within front (singleQuotedStep opening frames cs)) :
    ∃ size, singleQuotedLength? (cs.drop opening) = some size ∧ opening + size ≤ front.length := by
  obtain ⟨complete, inside⟩ := within
  unfold singleQuotedStep at complete inside
  split at inside
  · rename_i size closes
    exact ⟨size, closes, inside⟩
  · rename_i none
    simp only [none] at complete
    cases complete

/-- A text in single quotes within a text does not depend on what follows it. -/
theorem singleQuotedStep_same {opening : Nat} {frames : List Frame}
    (within : Within front (singleQuotedStep opening frames (front ++ after))) :
    singleQuotedStep opening frames (front ++ other) =
      singleQuotedStep opening frames (front ++ after) := by
  obtain ⟨size, closes, inside⟩ := singleQuotedStep_within within
  have length := List.length_drop (i := opening) (l := front)
  rw [List.drop_append_of_le_length (by omega)] at closes
  have inner := closes_singleQuoted.within closes (by omega)
  simp only [singleQuotedStep, List.drop_append_of_le_length (show opening ≤ front.length by omega),
    closes_singleQuoted.append other inner, closes]

end

end Untranslated.Php
