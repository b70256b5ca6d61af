/-
This file tells what segment stands at the front of a text.
-/

import Untranslated.Proofs.Blade.Segments
import Untranslated.Proofs.Text.Splitting

namespace Untranslated.Blade

open Text (isWordChar)

/-- A mark begins in a text, perhaps with its end in what follows. -/
def BeginsIn (mark cs following : List Char) : Prop :=
  ∃ i < cs.length, mark <+: (cs ++ following).drop i

/-- These marks begin a part of their own. -/
def openings : List (List Char) := ["\x7b\x7b".toList, "\x7b!!".toList, "<x-".toList]

/-- The body of a part has its ending at its end only. -/
def EndsFirst (ending body : List Char) : Prop := ¬ BeginsIn ending body ending

/-- A name is made of word characters, one at least. -/
def IsWord (name : List Char) : Prop := name ≠ [] ∧ ∀ c ∈ name, isWordChar c = true

/-- A name is at its end here. -/
def NameEnds (following : List Char) : Prop := ∀ c ∈ following.head?, isWordChar c = false

/-- No bracket follows a gap. -/
def Unbracketed (following : List Char) : Prop := (following.dropWhile isGap).head? ≠ some '('

/-- A known directive does not follow a word or a sign. -/
def Detached (previous : Option Char) : Prop :=
  ∀ c ∈ previous, isWordChar c = false ∧ c ≠ '@'

/-- The last character of a text, or the one before it. -/
def lastOf (previous : Option Char) (cs : List Char) : Option Char := cs.getLast?.or previous

instance (mark cs following : List Char) : Decidable (BeginsIn mark cs following) :=
  inferInstanceAs (Decidable (∃ i, i < cs.length ∧ mark <+: (cs ++ following).drop i))

instance (ending body : List Char) : Decidable (EndsFirst ending body) :=
  inferInstanceAs (Decidable (¬ _))

instance (name : List Char) : Decidable (IsWord name) :=
  decidable_of_iff (name ≠ [] ∧ name.all isWordChar = true) (by rw [List.all_eq_true]; rfl)

instance (following : List Char) : Decidable (NameEnds following) :=
  decidable_of_iff (following.head?.all (!isWordChar ·) = true) (by
    simp [NameEnds, Option.all_eq_true])

instance (following : List Char) : Decidable (Unbracketed following) :=
  inferInstanceAs (Decidable (¬ _))

instance (previous : Option Char) : Decidable (Detached previous) :=
  decidable_of_iff (previous.all (fun c => !isWordChar c && c != '@') = true) (by
    simp [Detached, Option.all_eq_true])

theorem lastOf_cons (previous : Option Char) (c : Char) (rest : List Char) :
    lastOf previous (c :: rest) = lastOf (some c) rest := by
  cases rest with
  | nil => rfl
  | cons d rest =>
      have last : ((d :: rest).getLast?).isSome = true := by simp
      obtain ⟨e, found⟩ := Option.isSome_iff_exists.mp last
      simp [lastOf, List.getLast?_cons_cons, found]

/-- The last character of a text is that of its back part, if that part has one. -/
theorem lastOf_append (previous : Option Char) (front back : List Char) :
    lastOf previous (front ++ back) = lastOf (lastOf previous front) back := by
  induction front generalizing previous with
  | nil => rfl
  | cons c rest inductionHypothesis =>
      rw [List.cons_append, lastOf_cons, lastOf_cons, inductionHypothesis]

theorem lastOf_concat (previous : Option Char) (front : List Char) (c : Char) :
    lastOf previous (front ++ [c]) = some c := by
  rw [lastOf_append]
  rfl

/-- A mark begins at the first character or further on. -/
theorem beginsIn_cons {mark : List Char} {c : Char} {rest following : List Char} :
    BeginsIn mark (c :: rest) following ↔
      mark <+: c :: (rest ++ following) ∨ BeginsIn mark rest following := by
  constructor
  · rintro ⟨i, inside, begins⟩
    cases i with
    | zero => exact .inl begins
    | succ i => exact .inr ⟨i, Nat.lt_of_succ_lt_succ inside, begins⟩
  · rintro (begins | ⟨i, inside, begins⟩)
    · exact ⟨0, Nat.succ_pos _, begins⟩
    · exact ⟨i + 1, Nat.succ_lt_succ inside, begins⟩

/-- A body with its ending is found as it stands, whatever follows. -/
theorem before?_endsFirst {ending body : List Char} (endsFirst : EndsFirst ending body)
    (rest : List Char) : before? ending (body ++ ending ++ rest) = some body := by
  induction body with
  | nil =>
      rw [List.nil_append]
      cases joined : ending ++ rest with
      | nil => simp [before?, (List.append_eq_nil_iff.mp joined).1]
      | cons c later => simp [before?, ← joined]
  | cons c body inductionHypothesis =>
      have absent := not_or.mp (fun begins => endsFirst (beginsIn_cons.mpr begins))
      have later : ending.isPrefixOf (c :: (body ++ ending ++ rest)) = false := by
        rw [Bool.eq_false_iff, Ne, List.isPrefixOf_iff_prefix]
        intro begins
        -- The ending is no longer than the body with its ending, so it would begin in the body.
        refine absent.1 (List.prefix_of_prefix_length_le begins ?_ ?_)
        · exact ⟨rest, by simp⟩
        · simp
          omega
      rw [List.cons_append, List.cons_append, before?, later, if_neg (by simp),
        inductionHypothesis absent.2]
      rfl

/-- A body between its marks is read up to its own end. -/
theorem between?_endsFirst {opening closing : String} {body : List Char}
    (endsFirst : EndsFirst closing.toList body) (rest : List Char) :
    between? opening closing (opening.toList ++ body ++ closing.toList ++ rest) = some body := by
  have begins : after? opening.toList (opening.toList ++ body ++ closing.toList ++ rest) =
      some (body ++ closing.toList ++ rest) := after?_eq_some.mpr (by simp)
  rw [between?, begins, Option.bind_some, before?_endsFirst endsFirst]

/-- The body of a block is read up to the directive that ends it. -/
theorem blockBody_endsFirst {ending : String} {body : List Char}
    (endsFirst : EndsFirst ending.toList body) (rest : List Char) :
    blockBody ending (body ++ ending.toList ++ rest) = (body, ending.toList) := by
  rw [blockBody, before?_endsFirst endsFirst]

section

variable {extra : List Text} {previous : Option Char} {rest : List Char}

/-- Characters of a segment begin no further ones. -/
theorem segmentsAfter_skipped (extra : List Text) (previous : Option Char)
    (skipped rest : List Char) :
    segmentsAfter extra skipped.length previous (skipped ++ rest) =
      segmentsAfter extra 0 (lastOf previous skipped) rest := by
  induction skipped generalizing previous with
  | nil => rfl
  | cons c skipped inductionHypothesis =>
      rw [lastOf_cons, ← inductionHypothesis]
      rfl

/-- A segment at the front is followed by the segments after it. -/
theorem segmentsAfter_leading (segment : Segment)
    (found : ∀ c tail, segment.written ++ rest = c :: tail →
      segmentAt extra previous c tail = segment) :
    segmentsAfter extra 0 previous (segment.written ++ rest) =
      segment :: segmentsAfter extra 0 (lastOf previous segment.written) rest := by
  cases written : segment.written with
  | nil =>
      have positive := segment.written_length
      simp [written] at positive
  | cons c tail =>
      have first := found c (tail ++ rest) (by rw [written, List.cons_append])
      rw [lastOf_cons, ← segmentsAfter_skipped, List.cons_append, segmentsAfter]
      simp only [first, written, List.length_cons, Nat.add_sub_cancel]

theorem after?_eq_none {start cs : List Char} (absent : ¬ start <+: cs) :
    after? start cs = none := by
  rw [after?, if_neg (by rwa [List.isPrefixOf_iff_prefix])]

/-- Nothing is read between marks where the first mark does not stand. -/
theorem between?_eq_none {opening closing : String} {cs : List Char}
    (absent : ¬ opening.toList <+: cs) : between? opening closing cs = none := by
  rw [between?, after?_eq_none absent, Option.bind_none]

/-- A character that is no sign begins a comment, an echo, a component or nothing. -/
theorem segmentAt_unsigned {c : Char} (noSign : c ≠ '@') :
    segmentAt extra previous c rest = (comment? (c :: rest) <|> raw? (c :: rest) <|>
      echo? (c :: rest) <|> component? (c :: rest)).getD (.plain c) := by
  have noSignHere : ¬ ['@'] <+: c :: rest := fun begins =>
    noSign (List.cons_prefix_cons.mp begins).1.symm
  have noEscaped : escaped? (c :: rest) = none := by
    rw [escaped?, after?_eq_none noSignHere]
    rfl
  have noDoubled : doubledSign? (c :: rest) = none := by
    rw [doubledSign?, if_neg]
    rw [List.isPrefixOf_iff_prefix]
    exact fun begins => noSignHere (List.IsPrefix.trans (by decide) begins)
  have noDirective : directive? extra previous (c :: rest) = none := by
    rw [directive?, after?_eq_none noSignHere]
    rfl
  simp [segmentAt, noEscaped, noDoubled, noDirective]

/-- A character that begins no mark stands for itself. -/
theorem segmentAt_plain {c : Char} (noSign : c ≠ '@')
    (noMark : ∀ mark ∈ openings, ¬ mark <+: c :: rest) :
    segmentAt extra previous c rest = .plain c := by
  have braces := noMark "\x7b\x7b".toList (by simp [openings])
  have noComment : comment? (c :: rest) = none := by
    rw [comment?, between?_eq_none fun begins => braces (List.IsPrefix.trans (by decide) begins)]
    rfl
  have noRaw : raw? (c :: rest) = none := by
    rw [raw?, between?_eq_none (noMark _ (by simp [openings]))]
    rfl
  have noEcho : echo? (c :: rest) = none := by
    rw [echo?, between?_eq_none braces]
    rfl
  have noComponent : component? (c :: rest) = none := by
    rw [component?, after?_eq_none (noMark _ (by simp [openings]))]
    rfl
  simp [segmentAt_unsigned noSign, noComment, noRaw, noEcho, noComponent]

/-- Text without marks is divided into its characters. -/
theorem segmentsAfter_text {shown : List Char} (noSign : '@' ∉ shown)
    (noMark : ∀ mark ∈ openings, ¬ BeginsIn mark shown rest) :
    segmentsAfter extra 0 previous (shown ++ rest) =
      shown.map .plain ++ segmentsAfter extra 0 (lastOf previous shown) rest := by
  induction shown generalizing previous with
  | nil => rfl
  | cons c shown inductionHypothesis =>
      obtain ⟨different, noSign⟩ := not_or.mp fun member => noSign (List.mem_cons.mpr member)
      have noMarkHere (mark : List Char) (member : mark ∈ openings) :=
        not_or.mp fun begins => noMark mark member (beginsIn_cons.mpr begins)
      have plain : segmentAt extra previous c (shown ++ rest) = .plain c :=
        segmentAt_plain (Ne.symm different) fun mark member => (noMarkHere mark member).1
      have first : segmentsAfter extra 0 previous (c :: (shown ++ rest)) =
          .plain c :: segmentsAfter extra 0 (some c) (shown ++ rest) :=
        segmentsAfter_leading (.plain c) fun d tail joined => by
          obtain ⟨rfl, rfl⟩ := List.cons.inj joined
          exact plain
      rw [List.cons_append, first, lastOf_cons,
        inductionHypothesis noSign fun mark member => (noMarkHere mark member).2]
      rfl

/-- A comment is read as one, up to its own end. -/
theorem segmentAt_comment {body : List Char} (endsFirst : EndsFirst "--\x7d\x7d".toList body)
    {c : Char} {tail : List Char} (joined : (Segment.comment body).written ++ rest = c :: tail) :
    segmentAt extra previous c tail = .comment body := by
  have comment : comment? (c :: tail) = some (.comment body) := by
    rw [← joined]
    exact congrArg (Option.map Segment.comment) (between?_endsFirst endsFirst rest)
  simp [segmentAt, comment]

/-- A raw echo is read up to its own end. -/
theorem raw?_endsFirst {expression : List Char}
    (endsFirst : EndsFirst "!!\x7d".toList expression) (rest : List Char) :
    raw? ((Segment.raw expression).written ++ rest) = some (.raw expression) :=
  congrArg (Option.map Segment.raw) (between?_endsFirst endsFirst rest)

/-- An echo is read up to its own end. -/
theorem echo?_endsFirst {expression : List Char}
    (endsFirst : EndsFirst "\x7d\x7d".toList expression) (rest : List Char) :
    echo? ((Segment.echo expression).written ++ rest) = some (.echo expression) :=
  congrArg (Option.map Segment.echo) (between?_endsFirst endsFirst rest)

/-- A raw echo at the front of a text is the segment that is read there. -/
theorem segmentAt_raw {expression : List Char} (endsFirst : EndsFirst "!!\x7d".toList expression)
    {c : Char} {tail : List Char} (joined : (Segment.raw expression).written ++ rest = c :: tail) :
    segmentAt extra previous c tail = .raw expression := by
  have raw : raw? (c :: tail) = some (.raw expression) := by
    rw [← joined, raw?_endsFirst endsFirst]
  have noComment : comment? (c :: tail) = none := by rw [← joined]; rfl
  have noEscaped : escaped? (c :: tail) = none := by rw [← joined]; rfl
  simp [segmentAt, noComment, noEscaped, raw]

/-- An echo that is no comment is the segment that is read at its front. -/
theorem segmentAt_echo {expression : List Char} (noComment : ¬ "--".toList <+: expression)
    (endsFirst : EndsFirst "\x7d\x7d".toList expression) {c : Char} {tail : List Char}
    (joined : (Segment.echo expression).written ++ rest = c :: tail) :
    segmentAt extra previous c tail = .echo expression := by
  have echo : echo? (c :: tail) = some (.echo expression) := by
    rw [← joined, echo?_endsFirst endsFirst]
  have noComment : comment? (c :: tail) = none := by
    rw [comment?, between?_eq_none, Option.map_none]
    rw [← joined]
    unfold Segment.written
    intro begins
    have dashes : ['-', '-'] <+: expression ++ '\x7d' :: '\x7d' :: rest := by simpa using begins
    -- Both dashes belong to the expression, for what follows it begins with braces.
    match expression with
    | [] => simp at dashes
    | [first] => simp at dashes
    | first :: second :: later =>
      refine absurd ?_ noComment
      simpa using dashes
  have noEscaped : escaped? (c :: tail) = none := by rw [← joined]; rfl
  have noRaw : raw? (c :: tail) = none := by rw [← joined]; rfl
  simp [segmentAt, noComment, noEscaped, noRaw, echo]

/-- A sign in front of an echo makes it stay as it is written. -/
theorem segmentAt_escaped {echo : Segment} {c : Char} {tail : List Char}
    (found : (echo? (echo.written ++ rest) <|> raw? (echo.written ++ rest)) = some echo)
    (joined : (Segment.escaped echo.written).written ++ rest = c :: tail) :
    segmentAt extra previous c tail = .escaped echo.written := by
  obtain ⟨rfl, rfl⟩ := List.cons.inj joined
  have escaped : escaped? ('@' :: (echo.written ++ rest)) = some (.escaped echo.written) := by
    have sign : after? ['@'] ('@' :: (echo.written ++ rest)) = some (echo.written ++ rest) :=
      after?_eq_some.mpr rfl
    simp only [escaped?, sign, Option.bind_eq_bind, Option.bind_some, found]
    rfl
  have noComment : comment? ('@' :: (echo.written ++ rest)) = none := rfl
  change segmentAt extra previous '@' (echo.written ++ rest) = _
  simp [segmentAt, noComment, escaped]

theorem segmentAt_doubledSign : segmentAt extra previous '@' ('@' :: rest) = .doubledSign := rfl

/-- A name reaches up to the first character that is none of a word. -/
theorem takeWhile_name {name following : List Char} (letters : ∀ c ∈ name, isWordChar c = true)
    (nameEnds : NameEnds following) : (name ++ following).takeWhile isWordChar = name :=
  takeWhile_stops letters nameEnds

/-- A sign that follows no word begins a directive, a known or an unknown one. -/
theorem directive?_detached (extra : List Text) {name : List Char} (word : IsWord name)
    (detached : Detached previous) {following : List Char} (nameEnds : NameEnds following) :
    directive? extra previous ('@' :: (name ++ following)) =
      some (if isKnown extra name then knownDirective name following else .unknown name) := by
  have sign : after? ['@'] ('@' :: (name ++ following)) = some (name ++ following) :=
    after?_eq_some.mpr rfl
  have free : (previous.any fun c => isWordChar c || c == '@') = false := by
    rw [Option.any_eq_false]
    intro c member
    obtain ⟨letter, different⟩ := detached c member
    simp [letter, different]
  have nonempty : name.isEmpty = false := by simpa using word.1
  simp only [directive?, sign, Option.bind_eq_bind, Option.bind_some,
    takeWhile_name word.2 nameEnds, List.drop_left, free, nonempty, Bool.or_self,
    Bool.false_eq_true, if_false]
  cases isKnown extra name <;> rfl

/-- A sign in a word or after a sign begins no directive. -/
theorem directive?_attached (extra : List Text) (attached : ¬ Detached previous) (cs : List Char) :
    directive? extra previous ('@' :: cs) = none := by
  have sign : after? ['@'] ('@' :: cs) = some cs := after?_eq_some.mpr rfl
  have joins : (previous.any fun c => isWordChar c || c == '@') = true := by
    rw [Option.any_eq_true]
    simp only [Detached, not_forall] at attached
    obtain ⟨c, member, joins⟩ := attached
    refine ⟨c, member, ?_⟩
    cases letter : isWordChar c <;> simp_all
  simp only [directive?, sign, Option.bind_eq_bind, Option.bind_some, joins, Bool.or_true, if_true]

/-- Only a directive can begin with a sign in front of a name. -/
theorem segmentAt_name (extra : List Text) (previous : Option Char) {name : List Char}
    (word : IsWord name) (following : List Char) :
    segmentAt extra previous '@' (name ++ following) =
      (directive? extra previous ('@' :: (name ++ following))).getD (.plain '@') := by
  obtain ⟨nonempty, letters⟩ := word
  obtain ⟨c, later, rfl⟩ := List.exists_cons_of_ne_nil nonempty
  have letter := letters c List.mem_cons_self
  have noBrace : '\x7b' ≠ c := by
    rintro rfl
    exact absurd letter (by simp [Text.isWordChar_mark])
  have noSign : '@' ≠ c := by
    rintro rfl
    exact absurd letter (by simp [Text.isWordChar_mark])
  have noEscaped : escaped? ('@' :: (c :: later ++ following)) = none := by
    have sign : after? ['@'] ('@' :: (c :: later ++ following)) = some (c :: later ++ following) :=
      after?_eq_some.mpr rfl
    have noEcho : echo? (c :: later ++ following) = none := by
      rw [echo?, between?_eq_none (by simp [noBrace]), Option.map_none]
    have noRaw : raw? (c :: later ++ following) = none := by
      rw [raw?, between?_eq_none (by simp [noBrace]), Option.map_none]
    simp only [escaped?, sign, Option.bind_eq_bind, Option.bind_some, noEcho, noRaw]
    rfl
  have noDoubled : doubledSign? ('@' :: (c :: later ++ following)) = none := by
    rw [doubledSign?, if_neg]
    simp [noSign]
  have noComment : comment? ('@' :: (c :: later ++ following)) = none := rfl
  have noRaw : raw? ('@' :: (c :: later ++ following)) = none := rfl
  have noEcho : echo? ('@' :: (c :: later ++ following)) = none := rfl
  have noComponent : component? ('@' :: (c :: later ++ following)) = none := rfl
  simp only [segmentAt, noComment, noEscaped, noRaw, noEcho, noComponent, noDoubled]
  rfl

/-- A sign and a name are a directive if nothing in front of them is in the way. -/
theorem segmentAt_directive (extra : List Text) {name : List Char} (word : IsWord name)
    (detached : Detached previous) {following : List Char} (nameEnds : NameEnds following) :
    segmentAt extra previous '@' (name ++ following) =
      if isKnown extra name then knownDirective name following else .unknown name := by
  rw [segmentAt_name extra previous word, directive?_detached extra word detached nameEnds]
  rfl

/-- A name that ends before a body also ends before the body and a sign. -/
theorem nameEnds_append {body : List Char} (nameEnds : NameEnds body) (later : List Char) :
    NameEnds (body ++ '@' :: later) := by
  cases body with
  | nil =>
      rintro c ⟨rfl⟩
      exact Text.isWordChar_mark (by decide)
  | cons first body => exact nameEnds

/-- A name is at its end in front of arguments. -/
theorem nameEnds_gap {gap : List Char} (blank : ∀ c ∈ gap, isGap c = true) (later : List Char) :
    NameEnds (gap ++ '(' :: later) := by
  cases gap with
  | nil =>
      rintro c ⟨rfl⟩
      exact Text.isWordChar_mark (by decide)
  | cons first gap =>
      rintro c ⟨rfl⟩
      have either := blank first List.mem_cons_self
      simp only [isGap, Bool.or_eq_true, beq_iff_eq] at either
      rcases either with rfl | rfl <;> exact Text.isWordChar_mark (by decide)

/-- The standard directives are known, whatever others there are. -/
theorem isKnown_standard {extra : List Text} {name : List Char}
    (standard : standardDirectives.contains (String.ofList name) = true) :
    isKnown extra name = true := by
  rw [isKnown, standard, Bool.true_or]

/-- A sign after a body opens no bracket. -/
theorem unbracketed_append {body : List Char} (unbracketed : Unbracketed body)
    (later : List Char) : Unbracketed (body ++ '@' :: later) := by
  unfold Unbracketed at *
  rw [List.dropWhile_append]
  cases rest : body.dropWhile isGap with
  | nil => simp [show isGap '@' = false from rfl]
  | cons c rest => simpa [rest] using unbracketed

/-- Without a bracket there are no arguments. -/
theorem arguments?_unbracketed {following : List Char} (unbracketed : Unbracketed following) :
    arguments? following = none := by
  simp only [arguments?, drop_takeWhile]
  rw [if_neg (by simpa [Unbracketed] using unbracketed)]

/-- A directive before a balanced text in brackets is called with it. -/
theorem knownDirective_call {name gap inside : List Char} (other : name ≠ "verbatim".toList)
    (blank : ∀ c ∈ gap, isGap c = true) (balanced : Balanced inside) (rest : List Char) :
    knownDirective name (gap ++ '(' :: inside ++ ')' :: rest) = .call name ⟨gap, inside⟩ := by
  unfold knownDirective
  rw [if_neg (by simpa using other), arguments?_balanced blank balanced]

/-- A directive without brackets stands alone. -/
theorem knownDirective_bare {name following : List Char} (other : name ≠ "verbatim".toList)
    (noBlock : name ≠ "php".toList) (unbracketed : Unbracketed following) :
    knownDirective name following = .bare name := by
  unfold knownDirective
  rw [if_neg (by simpa using other), arguments?_unbracketed unbracketed]
  simp only
  rw [if_neg (by simpa using noBlock)]

/-- A block of code reaches up to the directive that ends it. -/
theorem knownDirective_codeBlock {body : List Char} (unbracketed : Unbracketed body)
    (endsFirst : EndsFirst "@endphp".toList body) (rest : List Char) :
    knownDirective "php".toList (body ++ "@endphp".toList ++ rest) =
      .codeBlock body "@endphp".toList := by
  have noArguments : arguments? (body ++ "@endphp".toList ++ rest) = none := by
    rw [List.append_assoc]
    exact arguments?_unbracketed (unbracketed_append unbracketed _)
  unfold knownDirective
  rw [if_neg (by decide), noArguments]
  simp only
  rw [if_pos (by decide), blockBody_endsFirst endsFirst]

/-- A verbatim block reaches up to the directive that ends it. -/
theorem knownDirective_verbatim {body : List Char}
    (endsFirst : EndsFirst "@endverbatim".toList body) (rest : List Char) :
    knownDirective "verbatim".toList (body ++ "@endverbatim".toList ++ rest) =
      .verbatim body "@endverbatim".toList := by
  unfold knownDirective
  rw [if_pos (by decide), blockBody_endsFirst endsFirst]

end

/-- Every mark of a part begins with a brace or an angle bracket. -/
theorem opening_head {mark rest : List Char} {c : Char} (member : mark ∈ openings)
    (begins : mark <+: c :: rest) : c = '\x7b' ∨ c = '<' := by
  simp only [openings, List.mem_cons, List.not_mem_nil, or_false] at member
  rcases member with rfl | rfl | rfl
  · exact .inl (List.cons_prefix_cons.mp begins).1.symm
  · exact .inl (List.cons_prefix_cons.mp begins).1.symm
  · exact .inr (List.cons_prefix_cons.mp begins).1.symm

/-- No part begins in a text without braces and angle brackets. -/
theorem noMark_of_noHead {cs : List Char} (noBrace : '\x7b' ∉ cs) (noAngle : '<' ∉ cs)
    (following : List Char) : ∀ mark ∈ openings, ¬ BeginsIn mark cs following := by
  rintro mark member ⟨i, inside, begins⟩
  rw [List.drop_append_of_le_length (Nat.le_of_lt inside), List.drop_eq_getElem_cons inside,
    List.cons_append] at begins
  have here := List.getElem_mem inside
  rcases opening_head member begins with head | head <;> rw [head] at here
  · exact noBrace here
  · exact noAngle here

/-- No mark begins in a word. -/
theorem noMark_of_word {name : List Char} (letters : ∀ c ∈ name, isWordChar c = true)
    (following : List Char) : ∀ mark ∈ openings, ¬ BeginsIn mark name following :=
  noMark_of_noHead (fun member => absurd (letters _ member) (by simp [Text.isWordChar_mark]))
    (fun member => absurd (letters _ member) (by simp [Text.isWordChar_mark])) following

end Untranslated.Blade
