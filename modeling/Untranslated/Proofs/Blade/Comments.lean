/-
This file proves that the text of a comment does not show in the lowered template, in a component
tag neither, unless it moves the end of the tag or has a bound attribute.
-/

import Untranslated.Proofs.Blade.Components

namespace Untranslated.Blade

/-- Text in which nothing but component tags begins. -/
def IsMarkup (cs : List Char) : Prop := '@' ∉ cs ∧ '\x7b' ∉ cs

instance (cs : List Char) : Decidable (IsMarkup cs) := inferInstanceAs (Decidable (_ ∧ _))

/-- Two texts are markup together just when each is. -/
theorem isMarkup_append {front back : List Char} :
    IsMarkup (front ++ back) ↔ IsMarkup front ∧ IsMarkup back := by
  simp only [IsMarkup, List.mem_append, not_or]
  tauto

/-- The tag of a component that is not closed. -/
def Segment.openTag? : Segment → Option (List Char)
  | .component _ tag => if quoteAfter none tag = none then none else some tag
  | _ => none

/-- The tag that the last segment of a row leaves open. -/
def lastOpenTag? (row : List Segment) : Option (List Char) := row.getLast?.bind Segment.openTag?

/-- The component tag that is open at the end of a text. -/
def openTag? (extra : List Text) (cs : List Char) : Option (List Char) :=
  lastOpenTag? (segments extra cs)

/-- A segment that is no open tag does not count, whatever follows it. -/
theorem lastOpenTag?_cons {segment : Segment} (closed : segment.openTag? = none)
    (row : List Segment) : lastOpenTag? (segment :: row) = lastOpenTag? row := by
  cases row with
  | nil => exact closed
  | cons next later => rfl

/-- What ends the name of a component still does so before a brace. -/
theorem endsName_append {front : List Char} (ends : EndsName front) (tail : List Char) :
    EndsName (front ++ '\x7b' :: tail) := by
  cases front with
  | nil =>
      rintro c ⟨rfl⟩
      simp [isAttributeCharacter, Text.isWordChar_mark]
  | cons first front => exact ends

section

variable {extra : List Text} {previous : Option Char} {cs name following : List Char}

/-- The beginning of a tag has no brace. -/
theorem brace_not_mem (named : IsComponentName name) : '\x7b' ∉ "<x-".toList ++ name := by
  intro member
  rcases List.mem_append.mp member with mark | letter
  · exact absurd mark (by decide)
  · exact absurd (named.2 _ letter) (by simp [isAttributeCharacter, Text.isWordChar_mark])

/-- A brace after a text begins no component and closes none. -/
theorem component?_brace (tail : List Char) : component? (cs ++ '\x7b' :: tail) = none ↔
    component? cs = none := by
  rw [← not_iff_not, ← ne_eq, ← ne_eq, Option.ne_none_iff_exists', Option.ne_none_iff_exists']
  constructor
  · rintro ⟨segment, found⟩
    obtain ⟨name, following, named, ends, joined, -⟩ := component?_eq_some_iff.mp found
    obtain ⟨inner, rfl⟩ := prefix_of_stop ⟨following, joined.symm⟩ (brace_not_mem named)
    refine ⟨_, component?_eq_some_iff.mpr ⟨name, inner, named, fun c first => ?_, rfl, rfl⟩⟩
    refine ends c ?_
    rw [List.append_assoc] at joined
    rw [← List.append_cancel_left joined, List.head?_append, Option.mem_def.mp first]
    rfl
  · rintro ⟨segment, found⟩
    obtain ⟨name, following, named, ends, rfl, -⟩ := component?_eq_some_iff.mp found
    exact ⟨_, component?_eq_some_iff.mpr ⟨name, _, named, endsName_append ends tail,
      List.append_assoc .., rfl⟩⟩

/-- Markup holds component tags and plain characters. -/
theorem segmentAt_markup {c : Char} {rest : List Char} (noSign : c ≠ '@') (noBrace : c ≠ '\x7b') :
    segmentAt extra previous c rest = (component? (c :: rest)).getD (.plain c) := by
  have apart {opening : List Char} : ¬ '\x7b' :: opening <+: c :: rest :=
    fun begins => noBrace (List.cons_prefix_cons.mp begins).1.symm
  have noComment : comment? (c :: rest) = none := by
    rw [comment?, between?_eq_none, Option.map_none]
    exact apart
  have noRaw : raw? (c :: rest) = none := by
    rw [raw?, between?_eq_none, Option.map_none]
    exact apart
  have noEcho : echo? (c :: rest) = none := by
    rw [echo?, between?_eq_none, Option.map_none]
    exact apart
  rw [segmentAt_unsigned noSign, noComment, noRaw, noEcho]
  rfl

/-- A segment that the text in front has whatever follows a brace after it. -/
theorem segmentAt_brace {c : Char} {rest : List Char} (markup : IsMarkup (c :: rest))
    (closed : (segmentAt extra previous c rest).openTag? = none) (tail : List Char) :
    segmentAt extra previous c (rest ++ '\x7b' :: tail) = segmentAt extra previous c rest := by
  have noSign : c ≠ '@' := fun same => markup.1 (by simp [same])
  have noBrace : c ≠ '\x7b' := fun same => markup.2 (by simp [same])
  rw [segmentAt_markup noSign noBrace] at closed ⊢
  rw [segmentAt_markup noSign noBrace, ← List.cons_append]
  cases found : component? (c :: rest) with
  | none => rw [(component?_brace tail).mpr found]
  | some segment =>
      obtain ⟨name, following, named, ends, joined, rfl⟩ := component?_eq_some_iff.mp found
      simp only [found, Option.getD_some, Segment.openTag?, quoteAfter_tag] at closed
      have closes : quoteAfter none following = none := by
        by_contra open_
        simp [open_] at closed
      obtain ⟨same, inside⟩ := tagLength_closes closes ('\x7b' :: tail)
      have longer : component? (c :: rest ++ '\x7b' :: tail) =
          some (.component name (following.take (tagLength none following))) := by
        refine component?_eq_some_iff.mpr ⟨name, following ++ '\x7b' :: tail, named,
          endsName_append ends tail, by rw [joined, List.append_assoc], ?_⟩
        rw [same, List.take_append_of_le_length inside]
      rw [longer]

/-- An open tag takes up the rest of the text, from its name to the end. -/
theorem openTag?_markup {c : Char} {rest tag : List Char} (markup : IsMarkup (c :: rest))
    (opened : (segmentAt extra previous c rest).openTag? = some tag) :
    ∃ name, IsComponentName name ∧ EndsName tag ∧ quoteAfter none tag ≠ none ∧
      segmentAt extra previous c rest = .component name tag ∧
      c :: rest = "<x-".toList ++ name ++ tag := by
  have noSign : c ≠ '@' := fun same => markup.1 (by simp [same])
  have noBrace : c ≠ '\x7b' := fun same => markup.2 (by simp [same])
  rw [segmentAt_markup noSign noBrace] at opened ⊢
  cases found : component? (c :: rest) with
  | none => simp [found, Segment.openTag?] at opened
  | some segment =>
      obtain ⟨name, following, named, ends, joined, rfl⟩ := component?_eq_some_iff.mp found
      simp only [found, Option.getD_some, Segment.openTag?, quoteAfter_tag] at opened ⊢
      split at opened
      · cases opened
      · next open_ =>
        obtain ⟨quote, within⟩ := Option.ne_none_iff_exists'.mp open_
        have whole : following.take (tagLength none following) = following := by
          rw [tagLength_open within, List.take_length]
        rw [whole] at opened ⊢
        obtain rfl := Option.some.inj opened
        exact ⟨name, named, ends, open_, rfl, joined⟩

end

/-- What is still open at the end of a text, and the tag of it. -/
inductive OpenPart : List Char → Option (List Char) → Prop
  | closed : OpenPart [] none
  | inTag {name tag : List Char} (named : IsComponentName name) (ends : EndsName tag)
      (opened : quoteAfter none tag ≠ none) : OpenPart ("<x-".toList ++ name ++ tag) (some tag)

section

variable {extra : List Text} {c : Char} {rest : List Char}

/-- A tag that the text in front leaves open has all of the text. -/
theorem openPart_of_openTag {previous : Option Char} {tag : List Char}
    (markup : IsMarkup (c :: rest))
    (opened : (segmentAt extra previous c rest).openTag? = some tag) :
    OpenPart (c :: rest) (lastOpenTag? (segmentsAfter extra 0 previous (c :: rest))) := by
  obtain ⟨name, named, ends, open_, found, joined⟩ := openTag?_markup markup opened
  have written : (Segment.component name tag).written ++ [] = c :: rest :=
    (List.append_nil _).trans joined.symm
  have only : segmentsAfter extra 0 previous ((Segment.component name tag).written ++ []) =
      [.component name tag] :=
    segmentsAfter_leading (.component name tag) fun d tail front => by
      obtain ⟨rfl, rfl⟩ := List.cons.inj (written.symm.trans front)
      exact found
  have last : lastOpenTag? (segmentsAfter extra 0 previous (c :: rest)) = some tag := by
    rw [← written, only, ← opened, found]
    rfl
  rw [last, joined]
  exact .inTag named ends open_

/-- A segment that the text in front does not leave open comes first, at the end of the text and
before a brace. -/
theorem segmentsAfter_closed {previous : Option Char} (markup : IsMarkup (c :: rest))
    (closed : (segmentAt extra previous c rest).openTag? = none) :
    ∃ segment later, c :: rest = segment.written ++ later ∧ segment.openTag? = none ∧
      segmentsAfter extra 0 previous (c :: rest) =
        segment :: segmentsAfter extra 0 (lastOf previous segment.written) later ∧
      ∀ tail, segmentsAfter extra 0 previous (c :: rest ++ '\x7b' :: tail) =
        segment :: segmentsAfter extra 0 (lastOf previous segment.written)
          (later ++ '\x7b' :: tail) := by
  obtain ⟨later, joined⟩ := (segmentAt_leads extra previous c rest).written
  have found := segmentAt_brace markup closed
  generalize chosen : segmentAt extra previous c rest = segment at closed joined found
  refine ⟨segment, later, joined, closed, ?_, fun tail => ?_⟩
  · rw [joined]
    refine segmentsAfter_leading segment fun d front same => ?_
    obtain ⟨rfl, rfl⟩ := List.cons.inj (joined.trans same)
    exact chosen
  · rw [joined, List.append_assoc]
    refine segmentsAfter_leading segment fun d front same => ?_
    rw [← List.append_assoc, ← joined, List.cons_append] at same
    obtain ⟨rfl, rfl⟩ := List.cons.inj same
    exact found tail

end

/-- Up to what is open at its end markup has the same segments whatever follows a brace after it. -/
theorem markup_divides (extra : List Text) {before : List Char} (markup : IsMarkup before)
    (previous : Option Char) : ∃ row last rest, rest <:+ before ∧
      (∀ tail, segmentsAfter extra 0 previous (before ++ '\x7b' :: tail) =
        row ++ segmentsAfter extra 0 last (rest ++ '\x7b' :: tail)) ∧
      OpenPart rest (lastOpenTag? (segmentsAfter extra 0 previous before)) := by
  induction length : before.length using Nat.strong_induction_on generalizing before previous with
  | _ size inductionHypothesis =>
    cases before with
    | nil => exact ⟨[], previous, [], List.suffix_rfl, fun tail => rfl, .closed⟩
    | cons c rest =>
      cases opened : (segmentAt extra previous c rest).openTag? with
      | some tag =>
        exact ⟨[], previous, c :: rest, List.suffix_rfl, fun tail => rfl,
          openPart_of_openTag markup opened⟩
      | none =>
        obtain ⟨segment, later, joined, closed, alone, braced⟩ :=
          segmentsAfter_closed markup opened
        rw [alone, joined]
        rw [joined] at markup length
        have shorter : later.length < size := by
          have positive := segment.written_length
          simp only [List.length_append] at length
          omega
        obtain ⟨row, last, open_, suffix, segments, part⟩ :=
          inductionHypothesis later.length shorter (isMarkup_append.mp markup).2
            (lastOf previous segment.written) rfl
        refine ⟨segment :: row, last, open_, suffix.trans (List.suffix_append ..),
          fun tail => ?_, ?_⟩
        · rw [← joined, braced, segments, List.cons_append]
        · rwa [lastOpenTag?_cons closed]

/-- So is a template with a comment after markup. -/
theorem lower_divided (extra : List Text) {before : List Char} (markup : IsMarkup before) :
    ∃ front last rest, rest <:+ before ∧ OpenPart rest (openTag? extra before) ∧
      ∀ body after, lower extra (before ++ ((Segment.comment body).written ++ after)) =
        front ++ loweredFrom (lower extra) extra last
          (rest ++ ((Segment.comment body).written ++ after)) := by
  obtain ⟨row, last, rest, suffix, segments, part⟩ := markup_divides extra markup none
  refine ⟨row.flatMap (Segment.lowered (lower extra)), last, rest, suffix, part,
    fun body after => ?_⟩
  obtain ⟨tail, braced⟩ : ∃ tail, (Segment.comment body).written ++ after = '\x7b' :: tail :=
    ⟨_, rfl⟩
  rw [braced, lower_eq, loweredFrom, segments, List.flatMap_append]
  rfl

/-- A body that ends no comment has the ending of its comment at its end only. -/
theorem endsFirst_comment {body : List Char} (absent : ¬ "--\x7d\x7d".toList <:+: body) :
    EndsFirst "--\x7d\x7d".toList body := by
  rintro ⟨i, inside, begins⟩
  rw [List.drop_append_of_le_length (Nat.le_of_lt inside)] at begins
  have filled : body.drop i ≠ [] := by simpa using inside
  have suffix := List.drop_suffix i body
  generalize body.drop i = piece at begins filled suffix
  -- The ending has four characters and no beginning that is one of its ends.
  match piece with
  | [] => exact filled rfl
  | [a] | [a, b] | [a, b, c] => simp at begins
  | a :: b :: c :: d :: later =>
    have within : "--\x7d\x7d".toList <+: a :: b :: c :: d :: later := by simpa using begins
    exact absent (within.isInfix.trans suffix.isInfix)

theorem comment_written (body : List Char) : (Segment.comment body).written =
    "\x7b\x7b--".toList ++ body ++ "--\x7d\x7d".toList := rfl

/-- The body of a comment leaves the tag around it open, and has and opens no bound attribute. -/
structure Inert (quote later : Option Char) (body : List Char) : Prop where
  open_ : quoteAfter quote body = some later
  unbound : Unbound (some '-') body
  noValue : endsInValue 0 (some '-') body = false

section

variable {tag body : List Char} {quote later : Option Char}

/-- A comment leaves the quotation open that its body leaves open. -/
theorem quoteAfter_comment (around : quoteAfter none tag = some quote)
    (inert : Inert quote later body) :
    quoteAfter none (tag ++ (Segment.comment body).written) = some later := by
  have opened : ∀ mark ∈ quote, isQuote mark = true := isQuote_of_quoteAfter (by simp) around
  have stillOpened : ∀ mark ∈ later, isQuote mark = true :=
    isQuote_of_quoteAfter opened inert.open_
  have start : quoteAfter quote "\x7b\x7b--".toList = some quote :=
    quoteAfter_plain (by decide) (by decide) quote opened
  have ending : quoteAfter later "--\x7d\x7d".toList = some later :=
    quoteAfter_plain (by decide) (by decide) later stillOpened
  rw [quoteAfter_append, around, Option.bind_some, comment_written, quoteAfter_append,
    quoteAfter_append, start, Option.bind_some, inert.open_, Option.bind_some, ending]

/-- A comment with such a body stands in one piece of the tag. -/
theorem ofChars_comment (outsideValue : endsInValue 0 none tag = false)
    (inert : Inert quote later body) (rest : List Char) :
    Tag.ofChars (tag ++ ((Segment.comment body).written ++ rest)) = (Tag.ofChars tag).glue
      ((tagAfter 0 true (some '\x7d') rest).shown (Segment.comment body).written) := by
  let next := tagAfter 0 true (some '\x7d') rest
  have ending : tagAfter 0 true (some '-') (body ++ ("--".toList ++ '\x7d' :: '\x7d' :: rest)) =
      next.shown (body ++ "--\x7d\x7d".toList) :=
    calc
      _ = (tagAfter 0 true (some '-') body).glue
          ((tagAfter 0 true (some '\x7d') ([] ++ '\x7d' :: rest)).shown "--\x7d".toList) :=
        tagAfter_stop (by decide) (by decide +kernel) (some '-') body inert.noValue
      _ = (Tag.mk body []).glue ((next.shown ['\x7d']).shown "--\x7d".toList) := by
        rw [tagAfter_unbound inert.unbound, tagAfter_uncoloned (by decide)]
        rfl
      _ = next.shown (body ++ "--\x7d\x7d".toList) := by
        rw [← Tag.shown_append]
        exact (Tag.shown_append ..).symm
  calc
    _ = Tag.ofChars (tag ++ ([] ++ '\x7b' :: ("\x7b-".toList ++
        '-' :: (body ++ ("--".toList ++ '\x7d' :: '\x7d' :: rest))))) := by
      simp [comment_written]
    _ = (Tag.ofChars tag).glue ((tagAfter 0 true (some '\x7b') ("\x7b-".toList ++
        '-' :: (body ++ ("--".toList ++ '\x7d' :: '\x7d' :: rest)))).shown ['\x7b']) :=
      tagAfter_stop (by decide) (by decide +kernel) none tag outsideValue
    _ = (Tag.ofChars tag).glue (((next.shown (body ++ "--\x7d\x7d".toList)).shown
        "\x7b--".toList).shown ['\x7b']) := by
      rw [tagAfter_uncoloned (by decide), ending]
      rfl
    _ = _ := by
      rw [← Tag.shown_append, ← Tag.shown_append]
      rfl

/-- The tag around such a comment ends in what follows the comment. -/
theorem loweredFrom_commentedTag (lowerPiece : List Char → List Char) (extra : List Text)
    (previous : Option Char) {name : List Char} (named : IsComponentName name)
    (ends : EndsName tag) (around : quoteAfter none tag = some quote)
    (outsideValue : endsInValue 0 none tag = false) (inert : Inert quote later body)
    (after : List Char) :
    let kept := after.take (tagLength later after)
    loweredFrom lowerPiece extra previous
        ("<x-".toList ++ name ++ tag ++ ((Segment.comment body).written ++ after)) =
      "<x-".toList ++ name ++ ((Tag.ofChars tag).glue
          ((tagAfter 0 true (some '\x7d') kept).shown (Segment.comment body).written)).lowered
          lowerPiece ++
        loweredFrom lowerPiece extra (lastOf (some '\x7d') kept)
          (after.drop (tagLength later after)) := by
  intro kept
  let inside := tag ++ ((Segment.comment body).written ++ kept)
  let rest := after.drop (tagLength later after)
  have joined : tag ++ ((Segment.comment body).written ++ after) = inside ++ rest := by
    simp [inside, kept, rest]
  have length : tagLength none (inside ++ rest) = inside.length := by
    have within := quoteAfter_comment around inert
    have whole := tagLength_within within after
    have keptLength : kept.length = tagLength later after :=
      List.length_take_of_le (tagLength_le later after)
    rw [← joined, ← List.append_assoc, whole, ← keptLength]
    simp [inside, Nat.add_assoc]
  have insideEnds : EndsName (inside ++ rest) := by
    rw [← joined]
    exact endsName_append ends _
  have last : lastOf previous ("<x-".toList ++ name ++ inside) = lastOf (some '\x7d') kept := by
    have body : lastOf (lastOf previous ("<x-".toList ++ name ++ tag))
        (Segment.comment body).written = some '\x7d' := by
      rw [comment_written, lastOf_append]
      rfl
    rw [← body, ← lastOf_append, ← lastOf_append]
    simp [inside]
  rw [List.append_assoc, joined, loweredFrom_component lowerPiece extra previous named insideEnds
    length, last, ofChars_comment outsideValue inert]

end

/-- A comment outside of tags is lowered to its newlines. -/
theorem loweredFrom_comment (lowerPiece : List Char → List Char) (extra : List Text)
    (previous : Option Char) {body : List Char} (endsFirst : EndsFirst "--\x7d\x7d".toList body)
    (rest : List Char) :
    loweredFrom lowerPiece extra previous ((Segment.comment body).written ++ rest) =
      List.replicate (body.count '\n') '\n' ++ loweredFrom lowerPiece extra (some '\x7d') rest := by
  have last : lastOf previous (Segment.comment body).written = some '\x7d' := by
    rw [comment_written, lastOf_append]
    rfl
  rw [loweredFrom_leading lowerPiece (.comment body) fun c tail joined =>
    segmentAt_comment endsFirst joined, last]
  rfl

/-- Two bodies leave alike all that follows a comment with one of them after this text. -/
inductive Alike (extra : List Text) (first second : List Char) : List Char → Prop
  | outside {before : List Char} (closed : openTag? extra before = none) :
      Alike extra first second before
  | inside {before tag : List Char} {quote later : Option Char}
      (opened : openTag? extra before = some tag) (around : quoteAfter none tag = some quote)
      (outsideValue : endsInValue 0 none tag = false) (firstInert : Inert quote later first)
      (secondInert : Inert quote later second)
      (inner : Alike extra first second (Tag.ofChars tag).lastPiece) :
      Alike extra first second before

/-- Two comments that leave alike what follows are lowered alike in the same place. -/
theorem lower_alike (extra : List Text) {before first second : List Char} (markup : IsMarkup before)
    (firstEnds : EndsFirst "--\x7d\x7d".toList first)
    (secondEnds : EndsFirst "--\x7d\x7d".toList second)
    (lines : first.count '\n' = second.count '\n') (alike : Alike extra first second before)
    (after : List Char) :
    lower extra (before ++ ((Segment.comment first).written ++ after)) =
      lower extra (before ++ ((Segment.comment second).written ++ after)) := by
  induction alike generalizing after with
  | @outside before closed =>
      obtain ⟨front, last, rest, suffix, part, divided⟩ := lower_divided extra markup
      rw [closed] at part
      cases part
      rw [divided, divided, List.nil_append, List.nil_append,
        loweredFrom_comment _ _ _ firstEnds, loweredFrom_comment _ _ _ secondEnds, lines]
  | @inside before tag quote later opened around outsideValue firstInert secondInert inner
      inductionHypothesis =>
      obtain ⟨front, last, rest, suffix, part, divided⟩ := lower_divided extra markup
      rw [opened] at part
      cases part with
      | @inTag name _ named ends _ =>
        have innerMarkup : IsMarkup (Tag.ofChars tag).lastPiece := by
          have inTag : (Tag.ofChars tag).lastPiece <:+ before :=
            ((Tag.lastPiece_suffix tag).trans (List.suffix_append ..)).trans suffix
          exact ⟨fun member => markup.1 (inTag.subset member),
            fun member => markup.2 (inTag.subset member)⟩
        let next := tagAfter 0 true (some '\x7d') (after.take (tagLength later after))
        have same :
            ((Tag.ofChars tag).glue (next.shown (Segment.comment first).written)).lowered
                (lower extra) =
              ((Tag.ofChars tag).glue (next.shown (Segment.comment second).written)).lowered
                (lower extra) :=
          Tag.lowered_glue rfl (inductionHypothesis innerMarkup next.start)
        rw [divided, divided,
          loweredFrom_commentedTag _ _ _ named ends around outsideValue firstInert,
          loweredFrom_commentedTag _ _ _ named ends around outsideValue secondInert, same]

/-- The text of a comment does not show in the lowered template, only its newlines do. -/
theorem lower_comment (extra : List Text) {before first second : List Char} (noSign : '@' ∉ before)
    (noBrace : '\x7b' ∉ before) (firstEnds : ¬ "--\x7d\x7d".toList <:+: first)
    (secondEnds : ¬ "--\x7d\x7d".toList <:+: second)
    (lines : first.count '\n' = second.count '\n') (alike : Alike extra first second before)
    (after : List Char) :
    lower extra (before ++ "\x7b\x7b--".toList ++ first ++ "--\x7d\x7d".toList ++ after) =
      lower extra (before ++ "\x7b\x7b--".toList ++ second ++ "--\x7d\x7d".toList ++ after) := by
  have same := lower_alike extra ⟨noSign, noBrace⟩ (endsFirst_comment firstEnds)
    (endsFirst_comment secondEnds) lines alike after
  simpa [comment_written] using same

instance (quote later : Option Char) (body : List Char) : Decidable (Inert quote later body) :=
  decidable_of_iff (quoteAfter quote body = some later ∧ Unbound (some '-') body ∧
      endsInValue 0 (some '-') body = false)
    ⟨fun ⟨open_, unbound, noValue⟩ => ⟨open_, unbound, noValue⟩,
      fun ⟨open_, unbound, noValue⟩ => ⟨open_, unbound, noValue⟩⟩

/-- A comment after a bound attribute of a tag that is still open. -/
theorem lower_comment_inTag :
    Alike [] " __('b') ".toList " :c = d ".toList "<x-a :e=\"$f\" ".toList ∧
      lower [] ("<x-a :e=\"$f\" ".toList ++ "\x7b\x7b--".toList ++ " __('b') ".toList ++
          "--\x7d\x7d".toList ++ " />".toList) =
        lower [] ("<x-a :e=\"$f\" ".toList ++ "\x7b\x7b--".toList ++ " :c = d ".toList ++
          "--\x7d\x7d".toList ++ " />".toList) := by
  have opened : openTag? [] "<x-a :e=\"$f\" ".toList = some " :e=\"$f\" ".toList := by
    decide +kernel
  have around : quoteAfter none " :e=\"$f\" ".toList = some none := by decide +kernel
  have firstInert : Inert none none " __('b') ".toList := by decide +kernel
  have secondInert : Inert none none " :c = d ".toList := by decide +kernel
  have alike : Alike [] " __('b') ".toList " :c = d ".toList "<x-a :e=\"$f\" ".toList :=
    .inside opened around (by decide +kernel) firstInert secondInert
      (.outside (by decide +kernel))
  exact ⟨alike, lower_comment [] (by decide) (by decide) (by decide +kernel) (by decide +kernel)
    (by decide +kernel) alike _⟩

/-- A bound attribute in a comment becomes code, and the comment none. -/
theorem lower_comment_bound : ¬ ∀ (extra : List Text) (before first second after : List Char),
    '@' ∉ before → '\x7b' ∉ before → ¬ "--\x7d\x7d".toList <:+: first →
      ¬ "--\x7d\x7d".toList <:+: second → first.count '\n' = second.count '\n' →
        lower extra (before ++ "\x7b\x7b--".toList ++ first ++ "--\x7d\x7d".toList ++ after) =
          lower extra
            (before ++ "\x7b\x7b--".toList ++ second ++ "--\x7d\x7d".toList ++ after) := by
  intro every
  have same := every [] "<x-a ".toList " :b=\"__('k')\" ".toList " ".toList " />".toList (by decide)
    (by decide) (by decide +kernel) (by decide +kernel) (by decide +kernel)
  exact absurd same (by decide +kernel)

end Untranslated.Blade
