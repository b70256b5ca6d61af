/-
This file proves that the reader takes the same tokens from a static text wherever it stands.
Such a text is made of literals, points and round brackets with blanks and comments between them.
-/

import Untranslated.Proofs.Php.Lexer.Insertion

namespace Untranslated.Php

/-- Quoted texts without an interpolation are literals. -/
def Shape.isLiteral : Shape → Bool
  | .singleQuoted | .doubleQuoted | .heredoc | .nowdoc => true
  | _ => false

/-- The reader passes over a blank or a comment, or takes a literal, a point or a bracket. -/
def LexStep.isStatic : LexStep → Bool
  | .blank _ => true
  | .extra filler _ => filler != .markup
  | .lexeme shape spelling _ _ =>
    shape.isLiteral || shape == .mark && ["(", ")", "."].contains spelling

/-- The tokens of a text in front of what follows. They are absent if anything else than literals,
points and brackets stands in the text, or if a token goes on beyond it. -/
def staticRow? (after : List Char) :
    Nat → ReaderState → List Extra → Nat → List Char → Option (List Token)
  | _, _, _, _, [] => some []
  | 0, _, _, _, _ :: _ => none
  | fuel + 1, state, lead, offset, c :: front =>
    let step := lexStep state (c :: front ++ after)
    if step.isStatic && step.size ≤ (c :: front).length then
      (staticRow? after fuel (step.state state ((c :: front).take step.size))
        (step.lead lead offset) (offset + step.size) ((c :: front).drop step.size)).map
          (step.tokens state lead offset ++ ·)
    else none

/-- What follows a text here: a closing bracket, or a blank. -/
def EndsText (after : List Char) : Prop := after.head? = some ')' ∨ after.head? = some ' '

theorem EndsText.word {after : List Char} (ends : EndsText after) : EndsWord after := by
  rcases ends with head | head <;> simp only [EndsWord, head] <;> rfl

/-- What ends a text begins with no other character. -/
theorem EndsText.head_ne {after : List Char} (ends : EndsText after) {c : Char}
    (bracket : c ≠ ')') (blank : c ≠ ' ') : after.head? ≠ some c := by
  rcases ends with head | head <;> rw [head] <;> intro same
  · exact bracket (Option.some.inj same).symm
  · exact blank (Option.some.inj same).symm

/-- What ends a text begins with a bracket or with a blank. -/
theorem EndsText.exists_cons {after : List Char} (ends : EndsText after) :
    ∃ c rest, after = c :: rest ∧ (c = ')' ∨ c = ' ') := by
  rcases ends with head | head <;> obtain ⟨rest, rfl⟩ := List.head?_eq_some_iff.mp head
  · exact ⟨_, rest, rfl, .inl rfl⟩
  · exact ⟨_, rest, rfl, .inr rfl⟩

/-- The same step where other constructs are open. -/
def LexStep.inFrames (frames : List Frame) : LexStep → LexStep
  | .lexeme shape spelling size _ => .lexeme shape spelling size (framesAfter spelling frames)
  | step => step

section

variable (frames : List Frame) (step : LexStep)

/-- A step takes as much text wherever it is made. -/
@[simp]
theorem LexStep.inFrames_size : (step.inFrames frames).size = step.size := by cases step <;> rfl

/-- A step is broken wherever it is made. -/
@[simp]
theorem LexStep.inFrames_isBroken : (step.inFrames frames).isBroken = step.isBroken := by
  cases step with
  | blank size | extra filler size => rfl
  | lexeme shape spelling size outer => cases shape <;> rfl

/-- A step gives the same extras wherever it is made. -/
@[simp]
theorem LexStep.inFrames_lead (lead : List Extra) (offset : Nat) :
    (step.inFrames frames).lead lead offset = step.lead lead offset := by cases step <;> rfl

end

theorem framesAfter_empty (frames : List Frame) : framesAfter "" frames = frames := rfl

section

variable {front after other : List Char} {frames frames' : List Frame}

/-- A static step inside of a text gives a whole token. -/
theorem LexStep.within_of_static {step : LexStep} (static : step.isStatic = true)
    (inside : step.size ≤ front.length) : Within front step := by
  refine ⟨?_, inside⟩
  cases step with
  | blank size | extra filler size => rfl
  | lexeme shape spelling size frames => cases shape <;> first | rfl | cases static

/-- A text in single quotes is the same token before other text. -/
theorem singleQuotedStep_static {opening : Nat}
    (static : (singleQuotedStep opening frames (front ++ after)).isStatic = true)
    (inside : (singleQuotedStep opening frames (front ++ after)).size ≤ front.length) :
    singleQuotedStep opening frames' (front ++ other) =
      (singleQuotedStep opening frames (front ++ after)).inFrames frames' := by
  obtain ⟨size, closes, fits⟩ :=
    singleQuotedStep_within (LexStep.within_of_static static inside)
  have length := List.length_drop (i := opening) (l := front)
  rw [List.drop_append_of_le_length (by omega)] at closes
  have inner := closes_singleQuoted.within closes (by omega)
  simp only [singleQuotedStep, List.drop_append_of_le_length (show opening ≤ front.length by omega),
    closes_singleQuoted.append _ inner, LexStep.inFrames, framesAfter_empty]

/-- A quotation without an interpolation is the same token before other text. -/
theorem quotedStep_static {whole : Shape} {quotation : Quotation} {opening : Nat}
    (sound : quotation.IsSound) (ends : EndsText other)
    (static : (quotedStep whole quotation opening frames (front ++ after)).isStatic = true)
    (inside : (quotedStep whole quotation opening frames (front ++ after)).size ≤ front.length) :
    quotedStep whole quotation opening frames' (front ++ other) =
      (quotedStep whole quotation opening frames (front ++ after)).inFrames frames' := by
  have fits := quotedStep_fits (LexStep.within_of_static static inside)
  have length := List.length_drop (i := opening) (l := front)
  rw [quotedStep_eq, List.drop_append_of_le_length fits] at static inside ⊢
  rw [quotedStep_eq, List.drop_append_of_le_length fits]
  cases found : piece quotation quotation.isDocument (front.drop opening ++ after) with
  | mk size ending =>
      rw [found] at static inside
      cases ending with
      | unclosed | interpolation => cases static
      | closed =>
          simp only [LexStep.size] at inside
          have within : PieceWithin quotation (front.drop opening).length
              (front.drop opening ++ after)
              (piece quotation quotation.isDocument (front.drop opening ++ after)) := by
            rw [found]
            simp only [PieceWithin]
            omega
          obtain ⟨same, -⟩ := piece_within sound ends.word within
          rw [found] at within
          simp only [same, found, LexStep.inFrames, framesAfter_empty,
            closingLength_within sound ends.word found within]

/-- A document without an interpolation is the same token before other text. -/
theorem documentStep_static {letter : Nat} (ends : EndsText other)
    (static : (documentStep letter frames (front ++ after)).isStatic = true)
    (inside : (documentStep letter frames (front ++ after)).size ≤ front.length) :
    documentStep letter frames' (front ++ other) =
      (documentStep letter frames (front ++ after)).inFrames frames' := by
  have start := documentStep_fits (LexStep.within_of_static static inside)
  have noBreak : other.head? ≠ some '\n' := ends.head_ne (by decide) (by decide)
  have opened {size : Nat} {label : List Char} {isNowdoc : Bool}
      (opens : documentOpening? ((front ++ after).drop (letter + 3)) = some (size, label, isNowdoc))
      (fits : letter + 3 + size ≤ front.length) :
      documentOpening? ((front ++ other).drop (letter + 3)) = some (size, label, isNowdoc) := by
    have length := List.length_drop (i := letter + 3) (l := front)
    rw [List.drop_append_of_le_length start] at opens ⊢
    exact documentOpening?_within opens (by omega) (.inr noBreak)
  cases opens : documentOpening? ((front ++ after).drop (letter + 3)) with
  | none =>
      simp only [documentStep, opens] at static
      cases static
  | some opening =>
      obtain ⟨size, label, isNowdoc⟩ := opening
      have sound := (documentOpening?_label opens).1
      cases isNowdoc with
      | false =>
          have own : (Quotation.document label).IsSound := sound
          rw [documentStep_heredoc opens] at static inside ⊢
          have fits := quotedStep_fits (LexStep.within_of_static static inside)
          rw [documentStep_heredoc (opened opens fits)]
          exact quotedStep_static own ends static inside
      | true =>
          cases closes : nowdocLength? label true ((front ++ after).drop (letter + 3 + size)) with
          | none =>
              simp only [documentStep, opens, closes] at static
              cases static
          | some rest =>
              rw [documentStep_nowdoc opens closes] at inside ⊢
              simp only [LexStep.size] at inside
              have fits : letter + 3 + size ≤ front.length := by omega
              have length := List.length_drop (i := letter + 3 + size) (l := front)
              have closes' : nowdocLength? label true ((front ++ other).drop (letter + 3 + size)) =
                  some rest := by
                rw [List.drop_append_of_le_length fits] at closes ⊢
                exact nowdocLength?_within sound ends.word closes (by omega)
              rw [documentStep_nowdoc (opened opens fits) closes']
              simp only [LexStep.inFrames, framesAfter_empty]

/-- A word is not static. -/
theorem wordStep_not_static (frames : List Frame) (cs : List Char) :
    (wordStep frames cs).isStatic = false := by
  unfold wordStep
  simp only
  split <;> rfl

/-- A number is not static. -/
theorem numberStep_not_static (frames : List Frame) (cs : List Char) :
    (numberStep frames cs).isStatic = false := by
  unfold numberStep
  simp only
  split <;> rfl

/-- A line comment that ends in a text ends there, whatever follows. -/
theorem lineCommentLength_ended (ends : EndsText after) (ends' : EndsText other)
    (inside : lineCommentLength (front ++ after) ≤ front.length) :
    lineCommentLength (front ++ other) = lineCommentLength (front ++ after) := by
  have starts {added : List Char} (ends : EndsText added) : 0 < lineCommentLength added := by
    obtain ⟨d, others, rfl, is⟩ := ends.exists_cons
    have plain : d ≠ '?' ∧ d ≠ '\r' ∧ d ≠ '\n' := by rcases is with rfl | rfl <;> decide
    rw [lineCommentLength_cons plain]
    omega
  have noFeed {added : List Char} (ends : EndsText added) : added.head? ≠ some '\n' :=
    ends.head_ne (by decide) (by decide)
  fun_induction lineCommentLength front with
  | case1 | case2 | case4 | case7 | case8 => rfl
  | case3 rest alone =>
      have carriage {added : List Char} (ends : EndsText added) :
          lineCommentLength ('?' :: '\r' :: (rest ++ added)) = 0 := by
        refine lineCommentLength_carriage fun others same => ?_
        cases rest with
        | nil => exact noFeed ends (by rw [List.nil_append] at same; rw [same]; rfl)
        | cons next rest =>
            obtain ⟨rfl, -⟩ := List.cons.inj same
            exact alone rest rfl
      exact (carriage ends').trans (carriage ends).symm
  | case5 c rest carriage newline feed tag inductionHypothesis =>
      simp only [List.cons_append, lineCommentLength_mark ⟨tag, feed, newline⟩,
        List.length_cons] at inside ⊢
      rw [inductionHypothesis (by omega)]
  | case6 =>
      obtain ⟨d, others, rfl, is⟩ := ends.exists_cons
      have plain : d ≠ '>' ∧ d ≠ '\r' ∧ d ≠ '\n' := by rcases is with rfl | rfl <;> decide
      rw [List.cons_append, List.nil_append, lineCommentLength_mark plain] at inside
      simp only [List.length_cons, List.length_nil] at inside
      omega
  | case9 c rest _ _ _ _ more last carriage newline inductionHypothesis =>
      have mark : c ≠ '?' := by
        rintro rfl
        cases rest with
        | nil => exact last rfl rfl
        | cons next rest => exact more next rest rfl rfl
      simp only [List.cons_append, lineCommentLength_cons ⟨mark, carriage, newline⟩,
        List.length_cons] at inside ⊢
      rw [inductionHypothesis (by omega)]
  | case10 =>
      have positive := starts ends
      rw [List.nil_append] at inside
      exact absurd inside (Nat.not_le.mpr positive)

/-- A hash comment that ends in a text ends there, whatever follows. -/
theorem hashLength_ended (ends : EndsText after) (ends' : EndsText other)
    (inside : hashLength (front ++ after) ≤ front.length) :
    hashLength (front ++ other) = hashLength (front ++ after) := by
  cases front with
  | nil =>
      obtain ⟨d, others, rfl, is⟩ := ends.exists_cons
      rcases is with rfl | rfl <;> simp [hashLength] at inside
  | cons c rest =>
      simp only [List.cons_append, hashLength, List.length_cons] at inside ⊢
      split
      · rfl
      · rename_i more
        rw [if_neg more] at inside
        rw [lineCommentLength_ended ends ends' (by omega)]

/-- An extra whose measure is settled by a text is the same wherever the text stands. -/
theorem extra_static {filler : Filler} {measure : List Char → Nat}
    (settled : ∀ front, measure (front ++ after) ≤ front.length →
      measure (front ++ other) = measure (front ++ after)) {count : Nat}
    (inside : (LexStep.extra filler (count + measure ((front ++ after).drop count))).size ≤
      front.length) :
    LexStep.extra filler (count + measure ((front ++ other).drop count)) =
      .extra filler (count + measure ((front ++ after).drop count)) := by
  simp only [LexStep.size] at inside
  have long : count ≤ front.length := by omega
  have length := List.length_drop (i := count) (l := front)
  rw [List.drop_append_of_le_length long] at inside ⊢
  rw [List.drop_append_of_le_length long, settled _ (by omega)]

/-- What ends a text fails these tests. -/
def Inner (tests : List (Char → Bool)) : Prop :=
  ∀ test ∈ tests, test ')' = false ∧ test ' ' = false

instance (tests : List (Char → Bool)) : Decidable (Inner tests) :=
  inferInstanceAs (Decidable (∀ test ∈ tests, test ')' = false ∧ test ' ' = false))

/-- The tests of a text do not depend on what ends it. -/
theorem passes_ended {tests : List (Char → Bool)} (inner : Inner tests) (ends : EndsText after) :
    passes tests (front ++ after) = passes tests front := by
  induction tests generalizing front with
  | nil => rfl
  | cons test tests inductionHypothesis =>
      obtain ⟨⟨bracket, blank⟩, others⟩ := List.forall_mem_cons.mp inner
      cases front with
      | nil =>
          obtain ⟨d, rest, rfl, is⟩ := ends.exists_cons
          rcases is with rfl | rfl <;> simp [passes, bracket, blank]
      | cons c rest => exact congrArg (test c && ·) (inductionHypothesis others)

/-- What begins a text is told by the text, whatever ends it. Only the first test of a beginning
may let a bracket or a blank pass. -/
theorem beginning_ended (operand : Bool) (filled : front ≠ []) (ends : EndsText after) :
    beginning operand (front ++ after) = beginning operand front := by
  have inner : ∀ entry ∈ beginnings operand, Inner entry.tests.tail := by
    cases operand <;> decide
  obtain ⟨c, rest, rfl⟩ := List.exists_cons_of_ne_nil filled
  refine firstOf_congr fun entry member => ?_
  have others := inner entry member
  cases tests : entry.tests with
  | nil => rfl
  | cons test tests =>
      rw [tests] at others
      exact congrArg (test c && ·) (passes_ended others ends)

/-- A static step is the same before other text and where other constructs are open. -/
theorem Beginning.step_static {entry : Beginning} (begins : passes entry.tests front = true)
    (ends : EndsText after) (ends' : EndsText other)
    (static : (entry.step frames (front ++ after)).isStatic = true)
    (inside : (entry.step frames (front ++ after)).size ≤ front.length) :
    entry.step frames' (front ++ other) =
      (entry.step frames (front ++ after)).inFrames frames' := by
  have double : Quotation.double.IsSound := trivial
  have shell : Quotation.shell.IsSound := trivial
  cases entry with
  | blank | mark => rfl
  | word =>
      rw [Beginning.step, wordStep_not_static] at static
      cases static
  | number | fraction =>
      rw [Beginning.step, numberStep_not_static] at static
      cases static
  | markup => cases static
  | lineComment => exact extra_static (fun _ => lineCommentLength_ended ends ends') inside
  | hash => exact extra_static (fun _ => hashLength_ended ends ends') inside
  | blockComment =>
      obtain ⟨size, same⟩ :=
        blockComment_same (passes_length begins) (LexStep.within_of_static static inside)
      rw [(same frames').2, (same frames).1]
      rfl
  | singleQuoted letter => exact singleQuotedStep_static static inside
  | doubleQuoted letter => exact quotedStep_static double ends' static inside
  | shellQuoted => exact quotedStep_static shell ends' static inside
  | document letter => exact documentStep_static ends' static inside
  | unknown => cases static

variable {state state' : ReaderState}

/-- A step over a piece of static text is the same wherever the text stands. -/
theorem codeStep_static (operand : state'.operand = state.operand) (ends : EndsText after)
    (ends' : EndsText other) (filled : front ≠ [])
    (static : (codeStep state (front ++ after)).isStatic = true)
    (inside : (codeStep state (front ++ after)).size ≤ front.length) :
    codeStep state' (front ++ other) =
      (codeStep state (front ++ after)).inFrames state'.frames := by
  have begins {added : List Char} (ends : EndsText added) (state : ReaderState) :
      codeStep state (front ++ added) =
        (beginning state.operand front).step state.frames (front ++ added) := by
    rw [codeStep_eq state (List.append_ne_nil_of_left_ne_nil filled added),
      beginning_ended state.operand filled ends]
  rw [begins ends] at static inside ⊢
  rw [begins ends', operand]
  exact Beginning.step_static (beginning_passes state.operand front) ends ends' static inside

/-- Nothing but brackets is open. -/
def Bracketed (frames : List Frame) : Prop := ∀ frame ∈ frames, ∃ opening, frame = .bracket opening

/-- Brackets alone are well-formed. -/
theorem Bracketed.wellNested {frames : List Frame} (brackets : Bracketed frames) :
    WellNested frames := by
  induction frames with
  | nil => trivial
  | cons frame rest inductionHypothesis =>
      obtain ⟨⟨opening, rfl⟩, others⟩ := List.forall_mem_cons.mp brackets
      exact (wellNested_cons rfl rfl).mpr (inductionHypothesis others)

/-- In brackets the reader is in code. -/
theorem Bracketed.inCode (brackets : Bracketed state.frames) : state.inCode = true := by
  unfold ReaderState.inCode
  cases frames : state.frames with
  | nil => rfl
  | cons frame rest =>
      rw [frames] at brackets
      obtain ⟨opening, rfl⟩ := brackets frame List.mem_cons_self
      rfl

/-- A bracket that is closed leaves brackets. -/
theorem Bracketed.closeFrame {frames : List Frame} (brackets : Bracketed frames) (opening : Char) :
    Bracketed (closeFrame opening frames) := by
  unfold Untranslated.Php.closeFrame
  split
  · split
    · exact (List.forall_mem_cons.mp brackets).2
    · exact brackets
  · exact absurd (brackets _ List.mem_cons_self) (by simp)
  · exact brackets

/-- A mark leaves brackets. -/
theorem Bracketed.framesAfter {frames : List Frame} (brackets : Bracketed frames) (mark : String) :
    Bracketed (framesAfter mark frames) := by
  have opened (opening : Char) : Bracketed (.bracket opening :: frames) :=
    List.forall_mem_cons.mpr ⟨⟨opening, rfl⟩, brackets⟩
  unfold Untranslated.Php.framesAfter
  repeat' split
  all_goals first | exact opened _ | exact brackets.closeFrame _ | exact brackets

/-- Two readers agree on a static text if both are in brackets and both have read an operand or
neither has. -/
structure Agrees (state state' : ReaderState) : Prop where
  operand : state'.operand = state.operand
  brackets : Bracketed state.frames
  brackets' : Bracketed state'.frames

/-- Readers that agree make the same static step. -/
theorem Agrees.lexStep (agrees : Agrees state state') (ends : EndsText after)
    (ends' : EndsText other) (filled : front ≠ [])
    (static : (lexStep state (front ++ after)).isStatic = true)
    (inside : (lexStep state (front ++ after)).size ≤ front.length) :
    lexStep state' (front ++ other) =
      (lexStep state (front ++ after)).inFrames state'.frames := by
  rw [lexStep_code agrees.brackets.inCode] at static inside ⊢
  rw [lexStep_code agrees.brackets'.inCode]
  exact codeStep_static agrees.operand ends ends' filled static inside

/-- A static step puts no template text in front of a token. -/
theorem LexStep.lead_plain {lead : List Extra} (plain : hasMarkup lead = false) (offset : Nat)
    {step : LexStep} (static : step.isStatic = true) :
    hasMarkup (step.lead lead offset) = false := by
  cases step with
  | blank size => exact plain
  | lexeme shape spelling size frames => rfl
  | extra filler size =>
      have comment : (filler == .markup) = false := by simpa [LexStep.isStatic] using static
      have both : hasMarkup (lead ++ [⟨filler, offset, offset + size⟩]) =
          (hasMarkup lead || filler == .markup) := by
        simp [hasMarkup]
      exact both.trans (by rw [plain, comment]; rfl)

/-- After a static step two readers agree as before it. -/
theorem Agrees.step (agrees : Agrees state state') {step : LexStep}
    (same : step = step.inFrames state.frames) (taken taken' : List Char) :
    Agrees (step.state state taken) ((step.inFrames state'.frames).state state' taken') := by
  cases step with
  | blank size => exact agrees
  | extra filler size =>
      exact ⟨congrArg (· && filler != .markup) agrees.operand, agrees.2, agrees.3⟩
  | lexeme shape spelling size frames =>
      obtain rfl : frames = framesAfter spelling state.frames := by injection same
      exact ⟨rfl, agrees.brackets.framesAfter spelling, agrees.brackets'.framesAfter spelling⟩

/-- Without template text in front of it a token does not depend on what is open. -/
theorem LexStep.tokens_inFrames {lead : List Extra} (plain : hasMarkup lead = false) (offset : Nat)
    (step : LexStep) (frames : List Frame) :
    (step.inFrames frames).tokens state' lead offset = step.tokens state lead offset := by
  cases step with
  | blank size | extra filler size => rfl
  | lexeme shape spelling size frames =>
      simp only [LexStep.tokens, LexStep.inFrames, makeToken, plain, Bool.false_and]

/-- A static text has its tokens wherever it stands. -/
theorem tokensAt_static {fuel : Nat} {lead : List Extra} {offset : Nat} {row : List Token}
    (ends : EndsText after) (ends' : EndsText other) (agrees : Agrees state state')
    (plain : hasMarkup lead = false)
    (reads : staticRow? after fuel state lead offset front = some row) :
    ∃ last late, Bracketed last.frames ∧ hasMarkup late = false ∧
      tokensAt state' lead offset (front ++ other) =
        row ++ tokensAt last late (offset + front.length) other := by
  fun_induction staticRow? after fuel state lead offset front generalizing state' row with
  | case1 =>
      obtain rfl : [] = row := Option.some.inj reads
      exact ⟨_, _, agrees.brackets', plain, rfl⟩
  | case2 | case4 => cases reads
  | case3 fuel state lead offset c front step good =>
      rename_i inductionHypothesis
      obtain ⟨static, inside⟩ : step.isStatic = true ∧ step.size ≤ (c :: front).length := by
        simpa using good
      obtain ⟨others, further, rfl⟩ := Option.map_eq_some_iff.mp reads
      have itself : Agrees state state := ⟨rfl, agrees.brackets, agrees.brackets⟩
      have filled : c :: front ≠ [] := by simp
      have own : step = step.inFrames state.frames := itself.lexStep ends ends filled static inside
      have same : lexStep state' (c :: front ++ other) = step.inFrames state'.frames :=
        agrees.lexStep ends ends' filled static inside
      have whole := (LexStep.within_of_static static inside).whole
      obtain ⟨last, late, brackets, quiet, tokens⟩ := inductionHypothesis
        (agrees.step own _ ((c :: front ++ other).take step.size))
        (LexStep.lead_plain plain offset static) further
      refine ⟨last, late, brackets, quiet, ?_⟩
      have length : offset + step.size + ((c :: front).drop step.size).length =
          offset + (c :: front).length := by
        rw [List.length_drop]
        omega
      rw [length] at tokens
      rw [tokensAt_step agrees.brackets'.wellNested (by simp), same, LexStep.inFrames_size,
        LexStep.inFrames_isBroken, whole, LexStep.inFrames_lead, LexStep.tokens_inFrames plain,
        List.drop_append_of_le_length inside, if_neg Bool.false_ne_true, tokens, List.append_assoc]

/-- The tokens of a static text end inside of it, and no template text stands between them. -/
theorem staticRow?_inside {fuel : Nat} {lead : List Extra} {offset : Nat} {row : List Token}
    (plain : hasMarkup lead = false)
    (reads : staticRow? after fuel state lead offset front = some row) :
    ∀ token ∈ row, token.stop ≤ offset + front.length ∧ hasMarkup token.lead = false := by
  fun_induction staticRow? after fuel state lead offset front generalizing row with
  | case1 =>
      obtain rfl : [] = row := Option.some.inj reads
      simp
  | case2 | case4 => cases reads
  | case3 fuel state lead offset c front step good =>
      rename_i inductionHypothesis
      obtain ⟨static, inside⟩ : step.isStatic = true ∧ step.size ≤ (c :: front).length := by
        simpa using good
      obtain ⟨others, further, rfl⟩ := Option.map_eq_some_iff.mp reads
      have length := List.length_drop (i := step.size) (l := c :: front)
      intro token member
      rcases List.mem_append.mp member with member | member
      · generalize step = taken at member inside
        cases taken with
        | blank size | extra filler size => cases member
        | lexeme shape spelling size frames =>
            obtain rfl := List.mem_singleton.mp member
            exact ⟨Nat.add_le_add_left inside offset, plain⟩
      · obtain ⟨stop, quiet⟩ :=
          inductionHypothesis (LexStep.lead_plain plain offset static) further token member
        exact ⟨by omega, quiet⟩

end

end Untranslated.Php
