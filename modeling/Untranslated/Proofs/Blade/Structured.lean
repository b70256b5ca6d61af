/-
This file proves that structured templates are lowered part by part.
-/

import Untranslated.Proofs.Blade.Front

namespace Untranslated.Blade

open Text (isWordChar)

/-- The parts that a template is made of. -/
inductive Block where
  | text (shown : List Char)
  | comment (body : List Char)
  | escapedEcho (expression : List Char)
  | escapedRaw (expression : List Char)
  | echo (expression : List Char)
  | raw (expression : List Char)
  | doubledSign
  | call (name gap inside : List Char)
  | bare (name : List Char)
  | codeBlock (body : List Char)
  | verbatim (body : List Char)
  | unknown (name : List Char)

/-- The text of a part in a template. -/
def Block.written : Block → List Char
  | .text shown => shown
  | .comment body => "\x7b\x7b--".toList ++ body ++ "--\x7d\x7d".toList
  | .escapedEcho expression => "@\x7b\x7b".toList ++ expression ++ "\x7d\x7d".toList
  | .escapedRaw expression => "@\x7b!!".toList ++ expression ++ "!!\x7d".toList
  | .echo expression => "\x7b\x7b".toList ++ expression ++ "\x7d\x7d".toList
  | .raw expression => "\x7b!!".toList ++ expression ++ "!!\x7d".toList
  | .doubledSign => "@@".toList
  | .call name gap inside => '@' :: name ++ gap ++ '(' :: inside ++ [')']
  | .bare name => '@' :: name
  | .codeBlock body => "@php".toList ++ body ++ "@endphp".toList
  | .verbatim body => "@verbatim".toList ++ body ++ "@endverbatim".toList
  | .unknown name => '@' :: name

/-- The code that a directive stands for. -/
def callText (name inside : List Char) : List Char :=
  match String.ofList name with
  | "php" => "(".toList ++ inside ++ ");".toList
  | "lang" => "echo app('translator')->get(".toList ++ inside ++ ");".toList
  | "choice" => "echo app('translator')->choice(".toList ++ inside ++ ");".toList
  | "foreach" | "forelse" => "foreach (".toList ++ inside ++ ");".toList
  | "for" => "for (".toList ++ inside ++ ");".toList
  | _ => "__blade_".toList ++ name ++ "(".toList ++ inside ++ ");".toList

/-- What the rules make of a part. -/
def Block.lowered : Block → List Char
  | .text shown => shown
  | .comment body => body.filter (· = '\n')
  | .escapedEcho expression => "\x7b\x7b".toList ++ expression ++ "\x7d\x7d".toList
  | .escapedRaw expression => "\x7b!!".toList ++ expression ++ "!!\x7d".toList
  | .echo expression => "<?php echo e(".toList ++ expression ++ "); ?>".toList
  | .raw expression => "<?php echo ".toList ++ expression ++ "; ?>".toList
  | .doubledSign => "@".toList
  | .call name gap inside => gap ++ "<?php ".toList ++ callText name inside ++ " ?>".toList
  | .bare _ => []
  | .codeBlock body => "<?php".toList ++ body ++ "?>".toList
  | .verbatim body => body
  | .unknown name => '@' :: name

/-- The parts as the rules give them. -/
def Block.Valid (extra : List Text) : Block → Prop
  | .text shown =>
    '@' ∉ shown ∧ (∀ mark ∈ openings, ¬ BeginsIn mark shown []) ∧ shown.getLast? ≠ some '\x7b'
  | .comment body => EndsFirst "--\x7d\x7d".toList body
  | .escapedEcho expression => EndsFirst "\x7d\x7d".toList expression
  | .escapedRaw expression | .raw expression => EndsFirst "!!\x7d".toList expression
  | .echo expression => ¬ "--".toList <+: expression ∧ EndsFirst "\x7d\x7d".toList expression
  | .doubledSign => True
  | .call name gap inside =>
    IsWord name ∧ isKnown extra name = true ∧ name ≠ "verbatim".toList ∧
      (∀ c ∈ gap, isGap c = true) ∧ Balanced inside
  | .bare name =>
    IsWord name ∧ isKnown extra name = true ∧ name ≠ "php".toList ∧ name ≠ "verbatim".toList
  | .codeBlock body => NameEnds body ∧ Unbracketed body ∧ EndsFirst "@endphp".toList body
  | .verbatim body => NameEnds body ∧ EndsFirst "@endverbatim".toList body
  | .unknown name => IsWord name ∧ isKnown extra name = false

/-- Whether a part is plain text. -/
def Block.isText : Block → Bool
  | .text _ => true
  | _ => false

/-- A part stands between its neighbours as it would stand alone. -/
def Block.Apart (previous : Option Char) (later : List Block) : Block → Prop
  | .text shown => later.head?.any Block.isText = true →
    ∀ mark ∈ openings, ¬ BeginsIn mark shown (later.flatMap Block.written)
  | .call _ _ _ | .codeBlock _ | .verbatim _ => Detached previous
  | .bare _ =>
    Detached previous ∧ NameEnds (later.flatMap Block.written) ∧
      Unbracketed (later.flatMap Block.written)
  | .unknown _ => NameEnds (later.flatMap Block.written)
  | _ => True

/-- All parts stand apart from their neighbours. -/
def Apart (previous : Option Char) : List Block → Prop
  | [] => True
  | block :: later => block.Apart previous later ∧ Apart (lastOf previous block.written) later

instance (previous : Option Char) (later : List Block) :
    (block : Block) → Decidable (block.Apart previous later)
  | .text shown => inferInstanceAs (Decidable (later.head?.any Block.isText = true →
      ∀ mark ∈ openings, ¬ BeginsIn mark shown (later.flatMap Block.written)))
  | .call _ _ _ | .codeBlock _ | .verbatim _ => inferInstanceAs (Decidable (Detached previous))
  | .bare _ => inferInstanceAs (Decidable (_ ∧ _ ∧ _))
  | .unknown _ => inferInstanceAs (Decidable (NameEnds _))
  | .comment _ | .escapedEcho _ | .escapedRaw _ | .echo _ | .raw _ | .doubledSign => .isTrue trivial

instance decidableApart (previous : Option Char) :
    (row : List Block) → Decidable (Apart previous row)
  | [] => .isTrue trivial
  | block :: later =>
    have := decidableApart (lastOf previous block.written) later
    inferInstanceAs (Decidable (block.Apart previous later ∧ Apart _ later))

/-- The code of a directive is what stands around its arguments, and they. -/
theorem callText_codeAround (name inside : List Char) :
    callText name inside = (codeAround name).1 ++ inside ++ (codeAround name).2 := by
  unfold callText codeAround
  split <;> simp [*]

/-- The code of a directive is the one that the rules give. -/
theorem directiveCode_callText (name inside : List Char) :
    directiveCode name inside = "<?php ".toList ++ callText name inside ++ " ?>".toList := by
  rw [callText_codeAround]
  rfl

/-- Each part but plain text begins with a sign or a brace. -/
theorem Block.written_head {block : Block} (noText : block.isText = false) :
    ∃ c tail, block.written = c :: tail ∧ (c = '@' ∨ c = '\x7b') := by
  cases block with
  | text shown => simp [isText] at noText
  | comment | echo | raw => exact ⟨_, _, rfl, .inr rfl⟩
  | escapedEcho | escapedRaw | doubledSign | call | bare | codeBlock | verbatim | unknown =>
      exact ⟨_, _, rfl, .inl rfl⟩

/-- No mark ends with the first character of a part that is no text, unless it ends in a brace. -/
theorem opening_complete {mark tail following : List Char} {c : Char} (member : mark ∈ openings)
    (head : c = '@' ∨ c = '\x7b') (nonempty : tail ≠ []) (last : tail.getLast? ≠ some '\x7b')
    (begins : mark <+: tail ++ c :: following) : mark <+: tail := by
  simp only [openings, List.mem_cons, List.not_mem_nil, or_false] at member
  -- No mark has more than three characters, so a tail of three holds all that `begins` compares.
  rcases tail with _ | ⟨first, _ | ⟨second, _ | ⟨third, more⟩⟩⟩
  · exact absurd rfl nonempty
  · rcases head with rfl | rfl <;> rcases member with rfl | rfl | rfl <;> simp at begins last
    exact absurd begins.symm last
  · rcases head with rfl | rfl <;> rcases member with rfl | rfl | rfl <;> simp at begins ⊢
    all_goals exact begins
  · rcases member with rfl | rfl | rfl <;> simpa using begins

/-- No part begins in a plain text that stands apart, not even with what follows. -/
theorem noMark_of_apart {extra : List Text} {shown : List Char} {previous : Option Char}
    {later : List Block} (valid : (Block.text shown).Valid extra)
    (apart : (Block.text shown).Apart previous later) :
    ∀ mark ∈ openings, ¬ BeginsIn mark shown (later.flatMap Block.written) := by
  obtain ⟨_, noMark, last⟩ := valid
  cases later with
  | nil => exact noMark
  | cons block more =>
      cases text : block.isText with
      | true => exact apart (by simp [text])
      | false =>
          rintro mark member ⟨i, inside, begins⟩
          obtain ⟨c, tail, written, head⟩ := Block.written_head text
          rw [List.flatMap_cons, written, List.cons_append,
            List.drop_append_of_le_length (Nat.le_of_lt inside)] at begins
          refine noMark mark member ⟨i, inside, ?_⟩
          rw [List.append_nil]
          refine opening_complete member head ?_ ?_ begins
          · simpa using inside
          · rwa [List.getLast?_drop, if_neg (Nat.not_le.mpr inside)]

section

variable {extra : List Text} {previous : Option Char} (lowerPiece : List Char → List Char)

/-- The lowered text of the segments from here on. -/
def loweredFrom (extra : List Text) (previous : Option Char) (cs : List Char) : List Char :=
  (segmentsAfter extra 0 previous cs).flatMap (Segment.lowered lowerPiece)

/-- A segment at the front is lowered, and what follows is lowered after it. -/
theorem loweredFrom_leading (segment : Segment) {rest : List Char}
    (found : ∀ c tail, segment.written ++ rest = c :: tail →
      segmentAt extra previous c tail = segment) :
    loweredFrom lowerPiece extra previous (segment.written ++ rest) =
      segment.lowered lowerPiece ++
        loweredFrom lowerPiece extra (lastOf previous segment.written) rest := by
  unfold loweredFrom
  rw [segmentsAfter_leading segment found, List.flatMap_cons]

/-- A part that is read as a segment is lowered as this segment is. -/
theorem loweredFrom_segment {block : Block} (segment : Segment) {rest : List Char}
    (written : segment.written = block.written)
    (lowered : segment.lowered lowerPiece = block.lowered)
    (found : ∀ c tail, segment.written ++ rest = c :: tail →
      segmentAt extra previous c tail = segment) :
    loweredFrom lowerPiece extra previous (block.written ++ rest) =
      block.lowered ++ loweredFrom lowerPiece extra (lastOf previous block.written) rest := by
  rw [← written, loweredFrom_leading lowerPiece segment found, lowered]

/-- Plain text is lowered to itself, whatever follows it. -/
theorem loweredFrom_text {shown rest : List Char} (noSign : '@' ∉ shown)
    (noMark : ∀ mark ∈ openings, ¬ BeginsIn mark shown rest) :
    loweredFrom lowerPiece extra previous (shown ++ rest) =
      shown ++ loweredFrom lowerPiece extra (lastOf previous shown) rest := by
  have kept : (shown.map Segment.plain).flatMap (Segment.lowered lowerPiece) = shown :=
    (List.flatMap_map ..).trans (List.flatMap_singleton' shown)
  unfold loweredFrom
  rw [segmentsAfter_text noSign noMark, List.flatMap_append, kept]

/-- A directive in front is lowered as the segment that it is. -/
theorem loweredFrom_directive {block : Block} {name rest : List Char} (segment : Segment)
    (following : List Char) (joined : block.written = '@' :: name ++ following)
    (word : IsWord name) (known : isKnown extra name = true) (detached : Detached previous)
    (nameEnds : NameEnds (following ++ rest))
    (directive : knownDirective name (following ++ rest) = segment)
    (written : segment.written = block.written)
    (lowered : segment.lowered lowerPiece = block.lowered) :
    loweredFrom lowerPiece extra previous (block.written ++ rest) =
      block.lowered ++ loweredFrom lowerPiece extra (lastOf previous block.written) rest := by
  refine loweredFrom_segment lowerPiece segment written lowered fun c tail front => ?_
  rw [written, joined, List.append_assoc] at front
  obtain ⟨rfl, rfl⟩ := List.cons.inj front
  have found := segmentAt_directive extra word detached nameEnds
  rw [if_pos known, directive] at found
  exact found

/-- An unknown directive stays as it is written, also where it is none. -/
theorem loweredFrom_unknown {name rest : List Char} (valid : (Block.unknown name).Valid extra)
    (nameEnds : NameEnds rest) :
    loweredFrom lowerPiece extra previous ((Block.unknown name).written ++ rest) =
      (Block.unknown name).lowered ++
        loweredFrom lowerPiece extra (lastOf previous (Block.unknown name).written) rest := by
  obtain ⟨word, unknown⟩ := valid
  by_cases detached : Detached previous
  · refine loweredFrom_segment lowerPiece (.unknown name) rfl rfl fun c tail front => ?_
    obtain ⟨rfl, rfl⟩ := List.cons.inj front
    have found := segmentAt_directive extra word detached nameEnds
    rw [if_neg (by simp [unknown])] at found
    exact found
  · have noSign : '@' ∉ name := fun member =>
      absurd (word.2 _ member) (by simp [Text.isWordChar_mark])
    have sign : segmentsAfter extra 0 previous ('@' :: (name ++ rest)) =
        .plain '@' :: segmentsAfter extra 0 (some '@') (name ++ rest) :=
      segmentsAfter_leading (.plain '@') fun c tail front => by
        obtain ⟨rfl, rfl⟩ := List.cons.inj front
        have plain := segmentAt_name extra previous word rest
        rw [directive?_attached extra detached] at plain
        exact plain
    have letters : loweredFrom lowerPiece extra (some '@') (name ++ rest) =
        name ++ loweredFrom lowerPiece extra (lastOf (some '@') name) rest :=
      loweredFrom_text lowerPiece noSign (noMark_of_word word.2 rest)
    calc
      loweredFrom lowerPiece extra previous ((Block.unknown name).written ++ rest) =
          '@' :: loweredFrom lowerPiece extra (some '@') (name ++ rest) :=
        congrArg (List.flatMap (Segment.lowered lowerPiece)) sign
      _ = '@' :: name ++ loweredFrom lowerPiece extra (lastOf (some '@') name) rest := by
        rw [letters]
        rfl
      _ = _ := by rw [← lastOf_cons]; rfl

/-- A part is lowered by its rule, and what follows is lowered after it. -/
theorem loweredFrom_block {block : Block} {later : List Block} (valid : block.Valid extra)
    (apart : block.Apart previous later) :
    loweredFrom lowerPiece extra previous (block.written ++ later.flatMap Block.written) =
      block.lowered ++ loweredFrom lowerPiece extra (lastOf previous block.written)
        (later.flatMap Block.written) := by
  cases block with
  | text shown => exact loweredFrom_text lowerPiece valid.1 (noMark_of_apart valid apart)
  | comment body =>
      refine loweredFrom_segment lowerPiece (.comment body) rfl ?_
        fun c tail joined => segmentAt_comment valid joined
      exact (List.filter_eq '\n').symm
  | escapedEcho expression =>
      refine loweredFrom_segment lowerPiece (.escaped (Segment.echo expression).written) rfl rfl
        fun c tail joined => segmentAt_escaped ?_ joined
      rw [echo?_endsFirst valid]
      rfl
  | escapedRaw expression =>
      refine loweredFrom_segment lowerPiece (.escaped (Segment.raw expression).written) rfl rfl
        fun c tail joined => segmentAt_escaped ?_ joined
      rw [raw?_endsFirst valid]
      rfl
  | echo expression =>
      refine loweredFrom_segment lowerPiece (.echo expression) rfl ?_
        fun c tail joined => segmentAt_echo valid.1 valid.2 joined
      unfold Segment.lowered Block.lowered echoCode code
      simp
  | raw expression =>
      refine loweredFrom_segment lowerPiece (.raw expression) rfl ?_
        fun c tail joined => segmentAt_raw valid joined
      unfold Segment.lowered Block.lowered rawCode code
      simp
  | doubledSign =>
      refine loweredFrom_segment lowerPiece .doubledSign rfl rfl fun c tail joined => ?_
      obtain ⟨rfl, rfl⟩ := List.cons.inj joined
      exact segmentAt_doubledSign
  | call name gap inside =>
      obtain ⟨word, known, other, blank, balanced⟩ := valid
      refine loweredFrom_directive lowerPiece (.call name ⟨gap, inside⟩)
        (gap ++ '(' :: inside ++ [')']) ?_ word known apart ?_ ?_ ?_ ?_
      · unfold Block.written
        simp
      · simpa using nameEnds_gap blank _
      · simpa using knownDirective_call other blank balanced _
      · unfold Segment.written Block.written
        simp
      · unfold Segment.lowered Block.lowered
        simp [directiveCode_callText]
  | bare name =>
      obtain ⟨word, known, noBlock, other⟩ := valid
      obtain ⟨detached, nameEnds, unbracketed⟩ := apart
      exact loweredFrom_directive lowerPiece (.bare name) [] (List.append_nil _).symm word known
        detached nameEnds (knownDirective_bare other noBlock unbracketed) rfl rfl
  | codeBlock body =>
      obtain ⟨nameEnds, unbracketed, endsFirst⟩ := valid
      refine loweredFrom_directive lowerPiece (.codeBlock body "@endphp".toList)
        (body ++ "@endphp".toList) ?_ (by decide +kernel) (isKnown_standard (by decide))
        apart ?_ (knownDirective_codeBlock unbracketed endsFirst _) rfl rfl
      · unfold Block.written
        simp
      · rw [List.append_assoc]
        exact nameEnds_append nameEnds _
  | verbatim body =>
      obtain ⟨nameEnds, endsFirst⟩ := valid
      refine loweredFrom_directive lowerPiece (.verbatim body "@endverbatim".toList)
        (body ++ "@endverbatim".toList) ?_ (by decide +kernel)
        (isKnown_standard (by decide)) apart ?_ (knownDirective_verbatim endsFirst _) rfl rfl
      · unfold Block.written
        simp
      · rw [List.append_assoc]
        exact nameEnds_append nameEnds _
  | unknown name => exact loweredFrom_unknown lowerPiece valid apart

/-- Parts that stand apart from one another are lowered one by one. -/
theorem loweredFrom_blocks (row : List Block) (previous : Option Char)
    (valid : ∀ block ∈ row, block.Valid extra) (apart : Apart previous row) :
    loweredFrom lowerPiece extra previous (row.flatMap Block.written) =
      row.flatMap Block.lowered := by
  induction row generalizing previous with
  | nil => rfl
  | cons block later inductionHypothesis =>
      obtain ⟨here, others⟩ := apart
      rw [List.flatMap_cons, List.flatMap_cons,
        loweredFrom_block lowerPiece (valid block List.mem_cons_self) here,
        inductionHypothesis _ (fun other member => valid other (List.mem_cons_of_mem _ member))
          others]

end

/-- A template whose parts stand apart from their neighbours is lowered part by part. -/
theorem lower_structured (extra : List Text) (row : List Block)
    (valid : ∀ block ∈ row, block.Valid extra) (apart : Apart none row) :
    lower extra (row.flatMap Block.written) = row.flatMap Block.lowered :=
  loweredFrom_blocks _ row none valid apart

/-- A condition around a heading. -/
def heading : List Block := [
  .call "if".toList " ".toList "$a".toList, .text "\n<h1>".toList, .echo " __('b') ".toList,
  .text "</h1>\n".toList, .bare "endif".toList, .comment "\n".toList, .codeBlock " $c = 1; ".toList]

/-- The condition and the heading are lowered by the rules. -/
theorem lower_structured_heading :
    (∀ block ∈ heading, block.Valid []) ∧ Apart none heading ∧
      lower [] (heading.flatMap Block.written) =
        (" <?php __blade_if($a); ?>\n<h1><?php echo e( __('b') ); ?></h1>\n\n" ++
          "<?php $c = 1; ?>").toList := by
  have balanced : Balanced "$a".toList :=
    .plain (by decide) (by decide) (by decide) (.plain (by decide) (by decide) (by decide) .nil)
  have valid : ∀ block ∈ heading, block.Valid [] := by
    intro block member
    simp only [heading, List.mem_cons, List.not_mem_nil, or_false] at member
    rcases member with rfl | rfl | rfl | rfl | rfl | rfl | rfl
    · exact ⟨by decide +kernel, isKnown_standard (by decide), by decide, by simp [isGap],
        balanced⟩
    · exact ⟨by decide, by decide, by decide⟩
    · exact ⟨by decide, by decide⟩
    · exact ⟨by decide, by decide, by decide⟩
    · exact ⟨by decide +kernel, isKnown_standard (by decide), by decide, by decide⟩
    · change EndsFirst "--\x7d\x7d".toList "\n".toList
      decide
    · exact ⟨by decide +kernel, by decide, by decide⟩
  have apart : Apart none heading := by decide +kernel
  refine ⟨valid, apart, ?_⟩
  rw [lower_structured [] heading valid apart]
  decide +kernel

/-- A directive in a word is none. -/
theorem lower_attached : ¬ ∀ (extra : List Text) (row : List Block),
    (∀ block ∈ row, block.Valid extra) →
      lower extra (row.flatMap Block.written) = row.flatMap Block.lowered := by
  intro every
  have valid : ∀ block ∈ [Block.text "a".toList, .call "if".toList [] "x".toList],
      block.Valid [] := by
    intro block member
    simp only [List.mem_cons, List.not_mem_nil, or_false] at member
    rcases member with rfl | rfl
    · exact ⟨by decide, by decide, by decide⟩
    · exact ⟨by decide +kernel, isKnown_standard (by decide), by decide, by simp,
        .plain (by decide) (by decide) (by decide) .nil⟩
  exact absurd (every [] _ valid) (by decide +kernel)

end Untranslated.Blade
