/-
This file tells where a component tag closes and how the pieces of a tag go on in the text after
them.
-/

import Untranslated.Proofs.Blade.Bindings
import Untranslated.Proofs.Blade.Front

namespace Untranslated.Blade

open Text (isBlankChar isWordChar)

/-- Only the characters of the text are looked at, not every character there is. -/
instance decidableEvery {p : Char → Prop} [DecidablePred p] (cs : List Char) :
    Decidable (∀ c ∈ cs, p c) :=
  List.decidableBAll p cs

/-- The quote that a tag stands in after a text. There is none to tell if the text closes the
tag. -/
def quoteAfter : Option Char → List Char → Option (Option Char)
  | quote, [] => some quote
  | some mark, c :: rest => quoteAfter (if c == mark then none else some mark) rest
  | none, c :: rest =>
    if c == '>' then none else quoteAfter (if isQuote c then some c else none) rest

section

variable {quote later : Option Char} {front back : List Char}

@[simp] theorem quoteAfter_nil (quote : Option Char) : quoteAfter quote [] = some quote := by
  cases quote <;> rfl

/-- A text goes on in the quotation that its front part leaves open. -/
theorem quoteAfter_append (quote : Option Char) (front back : List Char) :
    quoteAfter quote (front ++ back) = (quoteAfter quote front).bind (quoteAfter · back) := by
  induction front generalizing quote with
  | nil => simp
  | cons c rest inductionHypothesis =>
      cases quote with
      | some mark => simp [quoteAfter, inductionHypothesis]
      | none =>
          simp only [List.cons_append, quoteAfter]
          split
          · rfl
          · exact inductionHypothesis _

/-- A text that does not close the tag belongs to it as a whole. -/
theorem tagLength_within (within : quoteAfter quote front = some later) (back : List Char) :
    tagLength quote (front ++ back) = front.length + tagLength later back := by
  induction front generalizing quote with
  | nil =>
      obtain rfl : quote = later := by simpa using within
      simp
  | cons c rest inductionHypothesis =>
      cases quote with
      | some mark =>
          rw [List.cons_append, tagLength, inductionHypothesis within, List.length_cons]
          omega
      | none =>
          simp only [quoteAfter] at within
          split at within
          · cases within
          · next open_ =>
            rw [List.cons_append, tagLength, if_neg open_, inductionHypothesis within,
              List.length_cons]
            omega

/-- What follows a text that closes the tag does not count. -/
theorem tagLength_closes (closes : quoteAfter quote front = none) (back : List Char) :
    tagLength quote (front ++ back) = tagLength quote front ∧
      tagLength quote front ≤ front.length := by
  induction front generalizing quote with
  | nil => simp at closes
  | cons c rest inductionHypothesis =>
      cases quote with
      | some mark =>
          obtain ⟨same, inside⟩ := inductionHypothesis closes
          exact ⟨by rw [List.cons_append, tagLength, tagLength, same],
            by rw [tagLength, List.length_cons]; omega⟩
      | none =>
          simp only [List.cons_append, tagLength]
          split
          · simp
          · next open_ =>
            simp only [quoteAfter, if_neg open_] at closes
            obtain ⟨same, inside⟩ := inductionHypothesis closes
            exact ⟨by rw [same], by rw [List.length_cons]; omega⟩

/-- A tag that is not closed in a text takes up all of it. -/
theorem tagLength_open (within : quoteAfter quote front = some later) :
    tagLength quote front = front.length := by
  have whole := tagLength_within within []
  have nothing : tagLength later [] = 0 := by cases later <;> rfl
  simpa [nothing] using whole

/-- A tag ends within the text. -/
theorem tagLength_le (quote : Option Char) (cs : List Char) : tagLength quote cs ≤ cs.length := by
  cases closes : quoteAfter quote cs with
  | none => exact (tagLength_closes closes []).2
  | some later => exact (tagLength_open closes).le

/-- The quote after a tag is the quote after the text that it was taken from. -/
theorem quoteAfter_tag (quote : Option Char) (cs : List Char) :
    quoteAfter quote (cs.take (tagLength quote cs)) = quoteAfter quote cs := by
  induction cs generalizing quote with
  | nil => simp
  | cons c rest inductionHypothesis =>
      cases quote with
      | some mark =>
          rw [tagLength, Nat.add_comm, List.take_succ_cons, quoteAfter, quoteAfter,
            inductionHypothesis]
      | none =>
          rw [tagLength]
          split
          · next closes => simp [quoteAfter, closes]
          · next open_ =>
            rw [Nat.add_comm, List.take_succ_cons, quoteAfter, quoteAfter, if_neg open_,
              if_neg open_, inductionHypothesis]

/-- Text without quotes and closing marks leaves a tag as it is. -/
theorem quoteAfter_plain {cs : List Char} (noQuote : ∀ c ∈ cs, isQuote c = false)
    (noClosing : '>' ∉ cs) (quote : Option Char) (open_ : ∀ mark ∈ quote, isQuote mark = true) :
    quoteAfter quote cs = some quote := by
  induction cs with
  | nil => simp
  | cons c rest inductionHypothesis =>
      obtain ⟨other, noClosing⟩ := not_or.mp fun member => noClosing (List.mem_cons.mpr member)
      have plain := noQuote c List.mem_cons_self
      have later := inductionHypothesis (fun d member => noQuote d (List.mem_cons_of_mem _ member))
        noClosing
      cases quote with
      | none => simp [quoteAfter, plain, Ne.symm other, later]
      | some mark =>
          have different : c ≠ mark := by
            rintro rfl
            simp [open_ c rfl] at plain
          simp [quoteAfter, different, later]

/-- The quote that a text leaves open is one. -/
theorem isQuote_of_quoteAfter {cs : List Char} (opened : ∀ mark ∈ quote, isQuote mark = true)
    (within : quoteAfter quote cs = some later) : ∀ mark ∈ later, isQuote mark = true := by
  induction cs generalizing quote with
  | nil =>
      obtain rfl : quote = later := by simpa using within
      exact opened
  | cons c rest inductionHypothesis =>
      cases quote with
      | some first =>
          have next : ∀ d ∈ if c == first then none else some first, isQuote d = true := by
            split
            · simp
            · exact opened
          exact inductionHypothesis next within
      | none =>
          rw [quoteAfter] at within
          split at within
          · cases within
          · have next : ∀ d ∈ if isQuote c then some c else none, isQuote d = true := by
              split
              · next quote => simpa using quote
              · simp
            exact inductionHypothesis next within

/-- Quoted text closes no tag. -/
theorem quoteAfter_quoted {mark : Char} {inside : List Char} (quote : isQuote mark = true)
    (absent : mark ∉ inside) : quoteAfter none (mark :: inside ++ [mark]) = some none := by
  have other : (mark == '>') = false := by
    rw [beq_eq_false_iff_ne]
    rintro rfl
    exact absurd quote (by decide)
  have within (cs : List Char) (absent : mark ∉ cs) :
      quoteAfter (some mark) (cs ++ [mark]) = some none := by
    induction cs with
    | nil => simp [quoteAfter]
    | cons c rest inductionHypothesis =>
        obtain ⟨different, absent⟩ := not_or.mp fun member => absent (List.mem_cons.mpr member)
        simp [quoteAfter, Ne.symm different, inductionHypothesis absent]
  simp [quoteAfter, other, quote, within inside absent]

end

/-- The code that a bound attribute is replaced by. -/
def boundCode (expression : List Char) : List Char :=
  code ("echo (".toList ++ expression ++ ");".toList)

/-- A tag with more text in front. -/
def Tag.shown (front : List Char) (tag : Tag) : Tag := { tag with start := front ++ tag.start }

/-- A tag whose last piece goes on as another tag begins. -/
def Tag.glueAfter (next : Tag) : List Char → List (Binding × List Char) → Tag
  | start, [] => next.shown start
  | start, (binding, piece) :: rest => ((next.glueAfter piece rest).bind binding).shown start

/-- A tag that goes on as another one. -/
def Tag.glue (tag next : Tag) : Tag := next.glueAfter tag.start tag.bound

/-- The last of the pieces that begin with this one. -/
def lastPieceAfter : List Char → List (Binding × List Char) → List Char
  | piece, [] => piece
  | _, (_, piece) :: rest => lastPieceAfter piece rest

/-- The piece at the end of a tag. -/
def Tag.lastPiece (tag : Tag) : List Char := lastPieceAfter tag.start tag.bound

@[simp] theorem Tag.shown_nil (tag : Tag) : tag.shown [] = tag := rfl

theorem Tag.shown_append (front back : List Char) (tag : Tag) :
    tag.shown (front ++ back) = (tag.shown back).shown front := by
  simp [shown]

/-- A character in front of two tags is in front of the first. -/
theorem Tag.cons_glue (c : Char) (tag next : Tag) :
    (tag.cons c).glue next = (tag.glue next).cons c := by
  obtain ⟨start, bound⟩ := tag
  cases bound <;> rfl

theorem Tag.bind_glue (binding : Binding) (tag next : Tag) :
    (tag.bind binding).glue next = (tag.glue next).bind binding := rfl

/-- The last piece ends the text of a tag. -/
theorem lastPieceAfter_suffix (start : List Char) (bound : List (Binding × List Char)) :
    lastPieceAfter start bound <:+ (Tag.mk start bound).written := by
  induction bound generalizing start with
  | nil => exact ⟨[], by simp [lastPieceAfter, Tag.written]⟩
  | cons entry rest inductionHypothesis =>
      have written : (Tag.mk start (entry :: rest)).written =
          (start ++ entry.1.written) ++ (Tag.mk entry.2 rest).written := by
        simp [Tag.written]
      rw [written]
      exact (inductionHypothesis entry.2).trans (List.suffix_append ..)

/-- The last piece of a tag ends the text that the tag is read from. -/
theorem Tag.lastPiece_suffix (cs : List Char) : (Tag.ofChars cs).lastPiece <:+ cs := by
  have suffix := lastPieceAfter_suffix (Tag.ofChars cs).start (Tag.ofChars cs).bound
  have written : (Tag.mk (Tag.ofChars cs).start (Tag.ofChars cs).bound).written = cs :=
    Tag.ofChars_written cs
  rwa [written] at suffix

section

variable {lowerPiece : List Char → List Char}

/-- A bound attribute is lowered to its code, between what is around it. -/
theorem Tag.lowered_bind (binding : Binding) (start : List Char) (tag : Tag) :
    ((tag.bind binding).shown start).lowered lowerPiece =
      lowerPiece start ++ (boundCode binding.expression ++ tag.lowered lowerPiece) := by
  simp [shown, bind, lowered, boundCode]

/-- Two tags that go on alike but for the piece in between are lowered alike if the pieces are. -/
theorem Tag.lowered_glue {tag next other : Tag} (bound : next.bound = other.bound)
    (piece : lowerPiece (tag.lastPiece ++ next.start) = lowerPiece (tag.lastPiece ++ other.start)) :
    (tag.glue next).lowered lowerPiece = (tag.glue other).lowered lowerPiece := by
  obtain ⟨start, entries⟩ := tag
  simp only [glue, lastPiece] at piece ⊢
  induction entries generalizing start with
  | nil =>
      have same : lowerPiece (start ++ next.start) = lowerPiece (start ++ other.start) := piece
      simp only [glueAfter, shown, lowered, same, bound]
  | cons entry rest inductionHypothesis =>
      simp only [glueAfter, lowered_bind]
      rw [inductionHypothesis entry.2 piece]

end

/-- A bound attribute that begins here is open at the end of the text, and wants its quote only. -/
def opensValue (previous : Option Char) (cs : List Char) : Bool :=
  ['"', '\''].any fun mark => (binding? previous (cs ++ [mark])).isSome

/-- The text, after so many characters of an attribute, ends in the value of a bound attribute. -/
def endsInValue : Nat → Option Char → List Char → Bool
  | _, _, [] => false
  | skipped + 1, _, c :: rest => endsInValue skipped (some c) rest
  | 0, previous, c :: rest =>
    match binding? previous (c :: rest) with
    | some binding => endsInValue (binding.size - 1) (some c) rest
    | none => opensValue previous (c :: rest) || endsInValue 0 (some c) rest

/-- What follows completes no bound attribute that begins in the text. -/
def Parted (back : List Char) : Nat → Option Char → List Char → Prop
  | _, _, [] => True
  | skipped + 1, _, c :: rest => Parted back skipped (some c) rest
  | 0, previous, c :: rest =>
    binding? previous (c :: rest ++ back) = binding? previous (c :: rest) ∧
      match binding? previous (c :: rest) with
      | some binding => Parted back (binding.size - 1) (some c) rest
      | none => Parted back 0 (some c) rest

/-- Each colon is joined to the character before it or to a colon after it. -/
def ColonsJoined : Option Char → List Char → Prop
  | _, [] => True
  | previous, c :: rest =>
    (c = ':' → joinsColon previous = true ∨ rest.head? = some ':') ∧ ColonsJoined (some c) rest

/-- The text has no bound attribute if it stands in a tag after this character. -/
def Unbound (previous : Option Char) (cs : List Char) : Prop :=
  (tagAfter 0 true previous cs).bound = []

/-- No part of a bound attribute but its expression can have this character. -/
def Stops (c : Char) : Prop :=
  isAttributeCharacter c = false ∧ isBlankChar c = false ∧ c ≠ '=' ∧ isQuote c = false

/-- Text in which no bound attribute can begin or end. -/
def Idle (cs : List Char) : Prop := ∀ c ∈ cs, c ≠ ':' ∧ isQuote c = false

instance (previous : Option Char) (cs : List Char) : Decidable (Unbound previous cs) :=
  inferInstanceAs (Decidable (_ = _))

instance (c : Char) : Decidable (Stops c) := inferInstanceAs (Decidable (_ ∧ _ ∧ _ ∧ _))

instance (cs : List Char) : Decidable (Idle cs) :=
  inferInstanceAs (Decidable (∀ c ∈ cs, c ≠ ':' ∧ isQuote c = false))

/-- A bound attribute up to its expression. -/
def Binding.opening (binding : Binding) : List Char :=
  ':' :: binding.name ++ binding.beforeSign ++ '=' :: binding.afterSign ++ [binding.mark]

theorem Binding.written_opening (binding : Binding) :
    binding.written = binding.opening ++ (binding.expression ++ [binding.mark]) := by
  simp [written, opening]

/-- A character that ends the names and signs does not stand among them. -/
theorem Binding.Proper.stop_not_mem {binding : Binding} (proper : binding.Proper) {stop : Char}
    (stops : Stops stop) : stop ∉ binding.opening := by
  obtain ⟨letter, blank, sign, quote⟩ := stops
  have colon : stop ≠ ':' := by
    rintro rfl
    exact absurd letter (by simp [isAttributeCharacter])
  have mark : stop ≠ binding.mark := by
    rintro rfl
    simp [proper.mark] at quote
  have name : stop ∉ binding.name := fun member => by simp [proper.name _ member] at letter
  have before : stop ∉ binding.beforeSign :=
    fun member => by simp [proper.beforeSign _ member] at blank
  have after : stop ∉ binding.afterSign :=
    fun member => by simp [proper.afterSign _ member] at blank
  simp [opening, colon, sign, mark, name, before, after]

/-- A beginning without a value ends in front of this value. -/
theorem prefix_of_stop {A : Type} {front before after : List A} {a : A}
    (begins : front <+: before ++ a :: after) (absent : a ∉ front) : front <+: before := by
  have both : before ++ [a] <+: before ++ a :: after := ⟨after, by simp⟩
  rcases List.prefix_or_prefix_of_prefix begins both with inside | beyond
  · rcases List.prefix_concat_iff.mp inside with same | inside
    · exact absurd (same ▸ List.mem_append_right _ List.mem_cons_self) absent
    · exact inside
  · exact absurd (beyond.subset (List.mem_append_right _ List.mem_cons_self)) absent

/-- A beginning whose last value is not in the back part ends in the front part. -/
theorem prefix_of_last {A : Type} {front before after : List A} {a : A}
    (begins : front ++ [a] <+: before ++ after) (absent : a ∉ after) : front ++ [a] <+: before := by
  rcases List.prefix_or_prefix_of_prefix begins (List.prefix_append before after) with
    inside | ⟨rest, beyond⟩
  · exact inside
  · rw [← beyond, List.prefix_append_right_inj] at begins
    have last : (before ++ rest).getLast? = some a := by simp [beyond]
    cases rest with
    | nil => exact ⟨[], by simpa using beyond.symm⟩
    | cons b rest =>
        rw [List.getLast?_append_of_ne_nil _ (by simp)] at last
        exact absurd (begins.subset (List.mem_of_getLast? last)) absent

/-- A bound attribute begins with a colon. -/
theorem binding?_other {previous : Option Char} {c : Char} (other : c ≠ ':') (rest : List Char) :
    binding? previous (c :: rest) = none := by
  rw [Option.eq_none_iff_forall_ne_some]
  intro binding found
  obtain ⟨-, -, later, joined⟩ := binding?_eq_some_iff.mp found
  exact other (List.cons.inj joined).1

section

variable {previous : Option Char} {cs gap back : List Char} {stop : Char}

/-- A text that has the opening of a bound attribute has the attribute, or is open for it. -/
theorem binding?_of_opening {binding : Binding} (proper : binding.Proper)
    (free : joinsColon previous = false) (begins : binding.opening <+: cs) :
    (binding? previous cs).isSome = true ∨ opensValue previous cs = true := by
  obtain ⟨inside, rfl⟩ := begins
  have complete {expression later : List Char} (absent : binding.mark ∉ expression) :
      binding? previous (binding.opening ++ (expression ++ binding.mark :: later)) =
        some { binding with expression } := by
    refine binding?_eq_some_iff.mpr ⟨free, { proper with expression := absent }, later, ?_⟩
    simp [Binding.written_opening, Binding.opening]
  by_cases member : binding.mark ∈ inside
  · obtain ⟨expression, later, rfl, absent⟩ := List.eq_append_cons_of_mem member
    exact .inl (by rw [complete absent]; rfl)
  · refine .inr (List.any_eq_true.mpr ⟨binding.mark, ?_, ?_⟩)
    · have quote := proper.mark
      simp only [isQuote, Bool.or_eq_true, beq_iff_eq] at quote
      simpa [or_comm] using quote
    · rw [List.append_assoc, complete member]
      rfl

/-- Text without quotes completes no bound attribute. -/
theorem binding?_unquoted (noQuote : ∀ c ∈ back, isQuote c = false) :
    binding? previous (cs ++ back) = binding? previous cs := by
  ext binding
  rw [binding?_eq_some_iff, binding?_eq_some_iff]
  refine and_congr_right fun _ => and_congr_right fun proper => ⟨?_, ?_⟩
  · rintro ⟨later, joined⟩
    have absent : binding.mark ∉ back := fun member => by
      simpa [proper.mark] using noQuote _ member
    have written : binding.written = binding.opening ++ binding.expression ++ [binding.mark] := by
      simp [Binding.written_opening]
    have begins : binding.written <+: cs ++ back := ⟨later, joined.symm⟩
    rw [written] at begins ⊢
    obtain ⟨rest, inside⟩ := prefix_of_last begins absent
    exact ⟨rest, inside.symm⟩
  · rintro ⟨later, rfl⟩
    exact ⟨later ++ back, List.append_assoc ..⟩

/-- Where idle text and a stop follow, no bound attribute is completed that was not open. -/
theorem binding?_stop (idle : Idle gap) (stops : Stops stop)
    (closed : binding? previous cs = none → opensValue previous cs = false) :
    binding? previous (cs ++ (gap ++ stop :: back)) = binding? previous cs := by
  cases found : binding? previous cs with
  | some binding =>
      obtain ⟨free, proper, later, rfl⟩ := binding?_eq_some_iff.mp found
      exact binding?_eq_some_iff.mpr ⟨free, proper, _, List.append_assoc ..⟩
  | none =>
      rw [Option.eq_none_iff_forall_ne_some]
      intro binding completed
      obtain ⟨free, proper, later, joined⟩ := binding?_eq_some_iff.mp completed
      -- The opening cannot reach the stop, and its last character, a quote, is not in the gap.
      have begins : binding.opening <+: cs ++ gap ++ stop :: back := by
        rw [List.append_assoc, joined, Binding.written_opening, List.append_assoc]
        exact List.prefix_append ..
      have opening : binding.opening <+: cs ++ gap :=
        prefix_of_stop begins (proper.stop_not_mem stops)
      have absent : binding.mark ∉ gap := fun member => by
        simpa [proper.mark] using (idle _ member).2
      rcases binding?_of_opening proper free (prefix_of_last opening absent) with complete | open_
      · simp [found] at complete
      · simp [closed found] at open_

/-- No bound attribute begins at a colon that is joined to a name or to another colon. -/
theorem binding?_joined {rest : List Char}
    (joined : joinsColon previous = true ∨ rest.head? = some ':') :
    binding? previous (':' :: rest) = none := by
  have apart : (joinsColon previous || rest.head? == some ':') = true := by simpa using joined
  simp only [binding?, apart, if_true]

/-- Text that begins no bound attribute stands in the tag as it is. -/
theorem tagAfter_joined {front : List Char} (joined : ColonsJoined previous front)
    (rest : List Char) : tagAfter 0 true previous (front ++ rest) =
      (tagAfter 0 true (lastOf previous front) rest).shown front := by
  induction front generalizing previous with
  | nil => rfl
  | cons c front inductionHypothesis =>
      obtain ⟨here, later⟩ := joined
      have noBinding : binding? previous (c :: (front ++ rest)) = none := by
        by_cases colon : c = ':'
        · subst colon
          refine binding?_joined ((here rfl).imp_right fun second => ?_)
          rw [List.head?_append, second]
          rfl
        · exact binding?_other colon _
      rw [List.cons_append, tagAfter, noBinding, inductionHypothesis later, lastOf_cons]
      rfl

/-- Without colons there are none to be joined. -/
theorem colonsJoined_of_noColon {front : List Char} (noColon : ':' ∉ front)
    (previous : Option Char) : ColonsJoined previous front := by
  induction front generalizing previous with
  | nil => trivial
  | cons c front inductionHypothesis =>
      obtain ⟨other, noColon⟩ := not_or.mp fun member => noColon (List.mem_cons.mpr member)
      exact ⟨fun colon => absurd colon.symm other, inductionHypothesis noColon _⟩

/-- After text without colons the tag goes on as if it began there. -/
theorem tagAfter_uncoloned {front : List Char} {c : Char} (noColon : ':' ∉ front ++ [c])
    (previous : Option Char) (rest : List Char) : tagAfter 0 true previous (front ++ c :: rest) =
      (tagAfter 0 true (some c) rest).shown (front ++ [c]) := by
  have shown := tagAfter_joined (colonsJoined_of_noColon noColon previous) rest
  rwa [List.append_assoc, List.singleton_append, lastOf_concat] at shown

theorem tagAfter_start (kept : Bool) (previous : Option Char) (cs : List Char) :
    tagAfter 0 kept previous cs = tagAfter 0 true previous cs := by
  cases cs <;> rfl

/-- The first piece of a tag stands at the front of its text. -/
theorem tagAfter_leading (previous : Option Char) (cs : List Char) :
    (tagAfter 0 true previous cs).start <+: cs :=
  ⟨_, (tagAfter_written 0 true previous cs).1⟩

/-- A text without bound attributes is the only piece of its tag. -/
theorem tagAfter_unbound {previous : Option Char} {cs : List Char} (unbound : Unbound previous cs) :
    tagAfter 0 true previous cs = ⟨cs, []⟩ := by
  have written := (tagAfter_written 0 true previous cs).1
  unfold Unbound at unbound
  cases tag : tagAfter 0 true previous cs with
  | mk start bound =>
      rw [tag] at written unbound
      obtain rfl : bound = [] := unbound
      obtain rfl : start = cs := by simpa [Tag.written] using written
      rfl

/-- A bound attribute ends within the text. -/
theorem binding?_size {binding : Binding} {c : Char} {rest : List Char}
    (found : binding? previous (c :: rest) = some binding) : binding.size - 1 ≤ rest.length := by
  obtain ⟨later, joined⟩ := (binding?_leads found).written
  have length := congrArg List.length joined
  simp only [List.length_cons, List.length_append] at length
  unfold Binding.size
  omega

/-- Where no bound attribute goes on from one text into the next, the tags are read apart. -/
theorem tagAfter_parted (skipped : Nat) (kept : Bool) (previous : Option Char)
    (front : List Char) (within : skipped ≤ front.length)
    (parted : Parted back skipped previous front) :
    tagAfter skipped kept previous (front ++ back) =
      (tagAfter skipped kept previous front).glue
        (tagAfter 0 true (lastOf previous front) back) := by
  induction front generalizing skipped kept previous with
  | nil =>
      obtain rfl : skipped = 0 := by simpa using within
      rw [List.nil_append, tagAfter_start]
      rfl
  | cons c rest inductionHypothesis =>
      rw [lastOf_cons]
      cases skipped with
      | succ skipped =>
          have later := inductionHypothesis skipped kept (some c) (by simpa using within) parted
          cases kept with
          | true => simp [tagAfter, later, Tag.cons_glue]
          | false => simpa [tagAfter] using later
      | zero =>
          obtain ⟨same, later⟩ := parted
          rw [List.cons_append, tagAfter, tagAfter, ← List.cons_append, same]
          cases found : binding? previous (c :: rest) with
          | none =>
              rw [found] at later
              rw [Tag.cons_glue, inductionHypothesis 0 true (some c) (Nat.zero_le _) later]
          | some binding =>
              rw [found] at later
              have goesOn (kept : Bool) := inductionHypothesis (binding.size - 1) kept (some c)
                (binding?_size found) later
              simp only [goesOn]
              split
              · rw [Tag.cons_glue]
              · rw [Tag.bind_glue]

/-- A text without quotes completes no bound attribute in front of it. -/
theorem parted_of_unquoted (noQuote : ∀ c ∈ back, isQuote c = false) (skipped : Nat)
    (previous : Option Char) (front : List Char) : Parted back skipped previous front := by
  induction front generalizing skipped previous with
  | nil => cases skipped <;> trivial
  | cons c rest inductionHypothesis =>
      cases skipped with
      | succ skipped => exact inductionHypothesis skipped (some c)
      | zero =>
          refine ⟨binding?_unquoted noQuote, ?_⟩
          split <;> exact inductionHypothesis _ (some c)

/-- A text that soon ends names and signs completes no bound attribute in front of it. -/
theorem parted_of_stop (idle : Idle gap) (stops : Stops stop) (skipped : Nat)
    (previous : Option Char) (front : List Char)
    (noValue : endsInValue skipped previous front = false) :
    Parted (gap ++ stop :: back) skipped previous front := by
  induction front generalizing skipped previous with
  | nil => cases skipped <;> trivial
  | cons c rest inductionHypothesis =>
      cases skipped with
      | succ skipped => exact inductionHypothesis skipped (some c) noValue
      | zero =>
          rw [endsInValue] at noValue
          refine ⟨binding?_stop idle stops fun none => ?_, ?_⟩
          · simp only [none, Bool.or_eq_false_iff] at noValue
            exact noValue.1
          · split at noValue
            · exact inductionHypothesis _ (some c) noValue
            · exact inductionHypothesis _ (some c) (Bool.or_eq_false_iff.mp noValue).2

/-- Idle text after a tag belongs to its last piece. -/
theorem tagAfter_idle (idle : Idle gap) (previous : Option Char) (front : List Char) :
    tagAfter 0 true previous (front ++ gap) = (tagAfter 0 true previous front).glue ⟨gap, []⟩ := by
  have noColon : ':' ∉ gap := fun member => (idle _ member).1 rfl
  have shown := tagAfter_joined (colonsJoined_of_noColon noColon (lastOf previous front)) []
  rw [List.append_nil] at shown
  rw [tagAfter_parted 0 true previous front (Nat.zero_le _)
    (parted_of_unquoted (fun c member => (idle c member).2) 0 previous front), shown]
  simp [tagAfter, Tag.shown]

/-- A tag goes on after idle text and a stop as if it began there, unless a value is open. -/
theorem tagAfter_stop (idle : Idle gap) (stops : Stops stop) (previous : Option Char)
    (front : List Char) (noValue : endsInValue 0 previous front = false) :
    tagAfter 0 true previous (front ++ (gap ++ stop :: back)) =
      (tagAfter 0 true previous front).glue
        ((tagAfter 0 true (some stop) back).shown (gap ++ [stop])) := by
  have noColon : ':' ∉ gap ++ [stop] := by
    intro member
    rcases List.mem_append.mp member with inside | last
    · exact (idle _ inside).1 rfl
    · obtain rfl := List.mem_singleton.mp last
      exact absurd stops (by decide +kernel)
  rw [tagAfter_parted 0 true previous front (Nat.zero_le _)
    (parted_of_stop idle stops 0 previous front noValue), tagAfter_uncoloned noColon]

end

end Untranslated.Blade
