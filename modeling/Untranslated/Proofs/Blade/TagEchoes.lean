/-
This file tells which echoes in a component tag are lowered as they are outside of one.
-/

import Untranslated.Proofs.Blade.Components

namespace Untranslated.Blade

/-- A component is lowered with the pieces of its tag, whatever the tag holds. -/
theorem lower_component (extra : List Text) {name following : List Char}
    (named : IsComponentName name) (ends : EndsName following) :
    ∃ rest, lower extra ("<x-".toList ++ name ++ following) = "<x-".toList ++ name ++
      (Tag.ofChars (following.take (tagLength none following))).lowered (lower extra) ++ rest := by
  obtain ⟨rest, joined⟩ := List.take_prefix (tagLength none following) following
  have length : tagLength none (following.take (tagLength none following) ++ rest) =
      (following.take (tagLength none following)).length := by
    rw [joined, List.length_take, Nat.min_eq_left (tagLength_le none following)]
  have lowered := loweredFrom_component (lower extra) extra none named (by rwa [joined]) length
  rw [joined] at lowered
  exact ⟨_, by rw [lower_eq, lowered]⟩

section

variable {expression : List Char}

/-- An ending that only stands at the end of a body does not stand in the text before. -/
theorem before?_endsFirst_leading {ending body piece : List Char}
    (endsFirst : EndsFirst ending body) (inside : piece <+: body) (filled : ending ≠ []) :
    before? ending piece = none := by
  rw [Option.eq_none_iff_forall_ne_some]
  intro shown found
  obtain ⟨later, rfl⟩ := before?_append found
  obtain ⟨rest, rfl⟩ := inside
  refine endsFirst ⟨shown.length, ?_, ?_⟩
  · have positive := List.length_pos_iff.mpr filled
    simp
    omega
  · simp

/-- An echo that is cut off keeps its braces. -/
theorem lower_cutEcho (extra : List Text) {piece : List Char} (noComment : ¬ "--".toList <+: piece)
    (cut : before? "\x7d\x7d".toList piece = none) :
    ∃ rest, lower extra (" \x7b\x7b".toList ++ piece) = " \x7b".toList ++ rest := by
  have brace (previous : Option Char) :
      segmentAt extra previous '\x7b' ('\x7b' :: piece) = .plain '\x7b' := by
    have noCommentHere : comment? ('\x7b' :: '\x7b' :: piece) = none := by
      rw [comment?, between?_eq_none, Option.map_none]
      simpa using noComment
    have noRaw : raw? ('\x7b' :: '\x7b' :: piece) = none := rfl
    have noEcho : echo? ('\x7b' :: '\x7b' :: piece) = none := by
      have begins : after? "\x7b\x7b".toList ('\x7b' :: '\x7b' :: piece) = some piece :=
        after?_eq_some.mpr rfl
      rw [echo?, between?, begins, Option.bind_some, cut, Option.map_none]
    have noComponent : component? ('\x7b' :: '\x7b' :: piece) = none := rfl
    rw [segmentAt_unsigned (by decide), noCommentHere, noRaw, noEcho, noComponent]
    rfl
  have blank (previous : Option Char) (rest : List Char) :
      segmentAt extra previous ' ' rest = .plain ' ' :=
    segmentAt_plain (by decide) fun mark member begins => by
      rcases opening_head member begins with head | head <;> exact absurd head (by decide)
  refine ⟨loweredFrom (lower extra) extra (some '\x7b') ('\x7b' :: piece), ?_⟩
  calc
    lower extra (" \x7b\x7b".toList ++ piece) =
        loweredFrom (lower extra) extra none (' ' :: '\x7b' :: '\x7b' :: piece) := lower_eq extra _
    _ = ' ' :: loweredFrom (lower extra) extra (some ' ') ('\x7b' :: '\x7b' :: piece) :=
      loweredFrom_leading (lower extra) (.plain ' ') fun c tail joined => by
        obtain ⟨rfl, rfl⟩ := List.cons.inj joined
        exact blank none _
    _ = ' ' :: '\x7b' :: loweredFrom (lower extra) extra (some '\x7b') ('\x7b' :: piece) :=
      congrArg (' ' :: ·) (loweredFrom_leading (lower extra) (.plain '\x7b') fun c tail joined => by
        obtain ⟨rfl, rfl⟩ := List.cons.inj joined
        exact brace (some ' '))

/-- The tag goes on after the braces of an echo at its beginning. -/
theorem ofChars_echo (cs : List Char) : Tag.ofChars (" \x7b\x7b".toList ++ cs) =
    (tagAfter 0 true (some '\x7b') cs).shown " \x7b\x7b".toList :=
  tagAfter_joined (colonsJoined_of_noColon (by decide) none) cs

/-- The text of a tag after its name that begins with an echo and holds nothing else. -/
def echoTag (expression : List Char) : List Char :=
  " \x7b\x7b".toList ++ (expression ++ "\x7d\x7d />".toList)

attribute [local simp] echoTag

/-- The pieces of the tag are those of its expression, with the marks around them. -/
theorem ofChars_echoTag (expression : List Char) : Tag.ofChars (echoTag expression) =
    ((tagAfter 0 true (some '\x7b') expression).glue ⟨"\x7d\x7d />".toList, []⟩).shown
      " \x7b\x7b".toList := by
  rw [echoTag, ofChars_echo, tagAfter_idle (by decide)]

/-- An echo that does not close the tag belongs to it as a whole. -/
theorem tagLength_echoTag (open_ : quoteAfter none expression ≠ none) :
    tagLength none (echoTag expression) = (echoTag expression).length := by
  obtain ⟨quote, within⟩ := Option.ne_none_iff_exists'.mp open_
  have opened : ∀ mark ∈ quote, isQuote mark = true := isQuote_of_quoteAfter (by simp) within
  obtain ⟨front, joined, whole⟩ : ∃ front, echoTag expression = front ++ ['>'] ∧
      quoteAfter none front = some quote := by
    have start : quoteAfter none " \x7b\x7b".toList = some none := rfl
    have ending : quoteAfter quote "\x7d\x7d /".toList = some quote :=
      quoteAfter_plain (by decide) (by decide) quote opened
    refine ⟨" \x7b\x7b".toList ++ (expression ++ "\x7d\x7d /".toList), by simp, ?_⟩
    rw [quoteAfter_append, start, Option.bind_some, quoteAfter_append, within, Option.bind_some,
      ending]
  have last : tagLength quote ['>'] = 1 := by cases quote <;> rfl
  rw [joined, tagLength_within whole, last, List.length_append]
  rfl

/-- The echo of a tag is cut off where it closes the tag, or else where a bound attribute begins. -/
theorem start_cutEcho
    (cut : quoteAfter none expression = none ∨ ¬ Unbound (some '\x7b') expression) :
    ∃ piece, piece <+: expression ∧
      (Tag.ofChars ((echoTag expression).take (tagLength none (echoTag expression)))).start =
        " \x7b\x7b".toList ++ piece := by
  by_cases closes : quoteAfter none expression = none
  · have length : tagLength none (echoTag expression) =
        " \x7b\x7b".toList.length + tagLength none expression := by
      have start : quoteAfter none " \x7b\x7b".toList = some none := rfl
      rw [echoTag, tagLength_within start, (tagLength_closes closes _).1]
    have tag : (echoTag expression).take (tagLength none (echoTag expression)) =
        " \x7b\x7b".toList ++ expression.take (tagLength none expression) := by
      rw [length, echoTag, List.take_length_add_append,
        List.take_append_of_le_length (tagLength_closes closes []).2]
    rw [tag, ofChars_echo]
    exact ⟨_, (tagAfter_leading _ _).trans (List.take_prefix ..), rfl⟩
  · have bound := cut.resolve_left closes
    rw [tagLength_echoTag closes, List.take_length, ofChars_echoTag]
    have inside := tagAfter_leading (some '\x7b') expression
    unfold Unbound at bound
    generalize tagAfter 0 true (some '\x7b') expression = tag at bound inside
    obtain ⟨start, _ | ⟨entry, later⟩⟩ := tag
    · exact absurd rfl bound
    · exact ⟨start, inside, by simp [Tag.glue, Tag.glueAfter, Tag.shown, Tag.bind]⟩

/-- White space in front of the echo ends the name of the component. -/
theorem endsName_echoTag (expression : List Char) : EndsName (echoTag expression) := by
  rintro c ⟨rfl⟩
  change isAttributeCharacter ' ' = false
  simp [isAttributeCharacter, Text.isWordChar_mark]

/-- The echo behind white space is lowered where it does not stand in a tag. -/
theorem lower_spacedEcho (extra : List Text) (noComment : ¬ "--".toList <+: expression)
    (endsFirst : EndsFirst "\x7d\x7d".toList expression) :
    lower extra (echoTag expression) = " ".toList ++ echoCode expression ++ " />".toList := by
  let row : List Block := [.text " ".toList, .echo expression, .text " />".toList]
  have valid : ∀ block ∈ row, block.Valid extra := by
    intro block member
    simp only [row, List.mem_cons, List.not_mem_nil, or_false] at member
    rcases member with rfl | rfl | rfl
    · exact ⟨by decide, by decide, by decide⟩
    · exact ⟨noComment, endsFirst⟩
    · exact ⟨by decide, by decide, by decide⟩
  have apart : Apart none row :=
    ⟨fun text => absurd text (by simp [Block.isText]), trivial,
      fun text => absurd text (by simp), trivial⟩
  have written : echoTag expression = row.flatMap Block.written := by
    change echoTag expression = " ".toList ++
      ("\x7b\x7b".toList ++ expression ++ "\x7d\x7d".toList ++ (" />".toList ++ []))
    unfold echoTag
    simp
  have lowered : " ".toList ++ echoCode expression ++ " />".toList = row.flatMap Block.lowered := by
    change _ = " ".toList ++
      ("<?php echo e(".toList ++ expression ++ "); ?>".toList ++ (" />".toList ++ []))
    unfold echoCode code
    simp
  rw [lower_eq, written, loweredFrom_blocks (lower extra) row none valid apart, lowered]

/-- An echo in a tag is lowered as one if it neither closes the tag nor holds a bound attribute. -/
theorem lower_wholeEcho (extra : List Text) {name : List Char} (named : IsComponentName name)
    (noComment : ¬ "--".toList <+: expression) (endsFirst : EndsFirst "\x7d\x7d".toList expression)
    (open_ : quoteAfter none expression ≠ none) (unbound : Unbound (some '\x7b') expression) :
    lower extra ("<x-".toList ++ name ++ echoTag expression) =
      "<x-".toList ++ name ++ (" ".toList ++ echoCode expression ++ " />".toList) := by
  have tag : Tag.ofChars (echoTag expression) = ⟨echoTag expression, []⟩ := by
    rw [ofChars_echoTag, tagAfter_unbound unbound]
    rfl
  have piece : lower extra (echoTag expression) =
      " ".toList ++ echoCode expression ++ " />".toList :=
    lower_spacedEcho extra noComment endsFirst
  have ends : EndsName (echoTag expression ++ []) := by simpa using endsName_echoTag expression
  have length : tagLength none (echoTag expression ++ []) = (echoTag expression).length := by
    simpa using tagLength_echoTag open_
  have lowered := loweredFrom_component (lower extra) extra none named ends length
  rw [List.append_nil, ← lower_eq, tag, Tag.lowered, piece] at lowered
  rw [lowered]
  simp [loweredFrom, segmentsAfter]

/-- An echo that is cut off is not lowered. -/
theorem lower_cutTag (extra : List Text) {name : List Char} (named : IsComponentName name)
    (noComment : ¬ "--".toList <+: expression) (endsFirst : EndsFirst "\x7d\x7d".toList expression)
    (cut : quoteAfter none expression = none ∨ ¬ Unbound (some '\x7b') expression) :
    ∃ rest, lower extra ("<x-".toList ++ name ++ echoTag expression) =
      "<x-".toList ++ name ++ (" \x7b".toList ++ rest) := by
  obtain ⟨piece, inside, start⟩ := start_cutEcho cut
  obtain ⟨rest, lowered⟩ := lower_component extra named (endsName_echoTag expression)
  obtain ⟨front, kept⟩ := lower_cutEcho extra (fun begins => noComment (begins.trans inside))
    (before?_endsFirst_leading endsFirst inside (by decide))
  rw [lowered, Tag.lowered, start, kept]
  simp only [List.append_assoc]
  exact ⟨_, rfl⟩

end

/-- An echo in a component tag is lowered as it is outside of one exactly if no closing mark outside
of quotes closes the tag in it and no bound attribute is found in it. -/
theorem lower_tagEcho_iff (extra : List Text) {name expression : List Char}
    (named : IsComponentName name) (noComment : ¬ "--".toList <+: expression)
    (endsFirst : EndsFirst "\x7d\x7d".toList expression) :
    lower extra ("<x-".toList ++ name ++ " \x7b\x7b".toList ++ expression ++ "\x7d\x7d />".toList) =
        "<x-".toList ++ name ++ " <?php echo e(".toList ++ expression ++ "); ?> />".toList ↔
      quoteAfter none expression ≠ none ∧ Unbound (some '\x7b') expression := by
  have written : "<x-".toList ++ name ++ " \x7b\x7b".toList ++ expression ++ "\x7d\x7d />".toList =
      "<x-".toList ++ name ++ echoTag expression := by
    simp [echoTag]
  have shown : "<x-".toList ++ name ++ " <?php echo e(".toList ++ expression ++ "); ?> />".toList =
      "<x-".toList ++ name ++ (" ".toList ++ echoCode expression ++ " />".toList) := by
    unfold echoCode code
    simp
  rw [written, shown]
  constructor
  · intro lowered
    by_contra cut
    obtain ⟨rest, kept⟩ := lower_cutTag extra named noComment endsFirst
      ((not_and_or.mp cut).imp_left not_not.mp)
    rw [lowered] at kept
    -- The second character after the name tells the two apart.
    have apart := List.append_cancel_left kept
    unfold echoCode code at apart
    simp at apart
  · rintro ⟨open_, unbound⟩
    exact lower_wholeEcho extra named noComment endsFirst open_ unbound

/-- A comparison in quotes leaves the tag open. -/
theorem lower_tagEcho_quoted :
    IsComponentName "a".toList ∧ EndsFirst "\x7d\x7d".toList " __('b > c') ".toList ∧
      lower [] "<x-a \x7b\x7b __('b > c') \x7d\x7d />".toList =
        "<x-a <?php echo e( __('b > c') ); ?> />".toList := by
  have named : IsComponentName "a".toList := by decide +kernel
  have endsFirst : EndsFirst "\x7d\x7d".toList " __('b > c') ".toList := by decide
  have lowered := lower_tagEcho_iff [] named (by decide) endsFirst
  exact ⟨named, endsFirst, lowered.mpr (by decide +kernel)⟩

/-- An arrow closes the tag in the middle of the echo. -/
theorem lower_tagEcho_arrow : ¬ ∀ (extra : List Text) (name expression : List Char),
    IsComponentName name → ¬ "--".toList <+: expression → EndsFirst "\x7d\x7d".toList expression →
      lower extra
          ("<x-".toList ++ name ++ " \x7b\x7b".toList ++ expression ++ "\x7d\x7d />".toList) =
        "<x-".toList ++ name ++ " <?php echo e(".toList ++ expression ++ "); ?> />".toList := by
  intro every
  have lowered := every [] "a".toList " $b->c(__('k')) ".toList (by decide +kernel) (by decide)
    (by decide)
  exact absurd lowered (by decide +kernel)

end Untranslated.Blade
