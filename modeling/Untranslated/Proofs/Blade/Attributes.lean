/-
This file proves that the bound attributes of a component tag become code, and that all else in the
tag and what follows it stays as it is.
-/

import Untranslated.Proofs.Blade.Components

namespace Untranslated.Blade

open Text (isBlankChar isWordChar)

/-- A value with the quotes around it. -/
structure QuotedValue where
  mark : Char
  inside : List Char

def QuotedValue.written (value : QuotedValue) : List Char :=
  value.mark :: value.inside ++ [value.mark]

/-- The attributes that a component tag may have. -/
inductive Attribute where
  | plain (name : List Char) (value : Option QuotedValue)
  | escaped (name : List Char) (value : QuotedValue)
  | bound (name : List Char) (value : QuotedValue)

def Attribute.written : Attribute → List Char
  | .plain name none => name
  | .plain name (some value) => name ++ '=' :: value.written
  | .escaped name value => ':' :: ':' :: name ++ '=' :: value.written
  | .bound name value => ':' :: name ++ '=' :: value.written

/-- Only a bound attribute becomes code. -/
def Attribute.lowered : Attribute → List Char
  | .bound _ value => "<?php echo (".toList ++ value.inside ++ "); ?>".toList
  | other => other.written

/-- A colon in a name stands directly after a word character or a dash. -/
structure IsPlainName (name : List Char) : Prop where
  first : name.head?.any isWordChar = true
  letters : ∀ c ∈ name, isWordChar c = true ∨ c = '-' ∨ c = ':'
  colons : name.IsChain fun before c => c = ':' → isWordChar before = true ∨ before = '-'

/-- The value does not hold the quote that closes it. -/
def QuotedValue.Closed (value : QuotedValue) : Prop :=
  isQuote value.mark = true ∧ value.mark ∉ value.inside

/-- A plain value has no character that could begin a part of its own. -/
def QuotedValue.Plain (value : QuotedValue) : Prop :=
  value.Closed ∧ '@' ∉ value.inside ∧ '\x7b' ∉ value.inside ∧ '<' ∉ value.inside ∧
    ':' ∉ value.inside

/-- Names and values are such that each attribute ends where it is meant to end. -/
def Attribute.Valid : Attribute → Prop
  | .plain name value => IsPlainName name ∧ ∀ v ∈ value, v.Plain
  | .escaped name value => IsPlainName name ∧ value.Plain
  | .bound name value =>
    name ≠ [] ∧ (∀ c ∈ name, isWordChar c = true ∨ c = '-') ∧ value.Closed ∧
      ¬ ∀ c ∈ value.inside, isBlankChar c = true

/-- A component tag with its attributes, each with the white space in front of it. -/
structure ComponentTag where
  name : List Char
  attributes : List (List Char × Attribute)
  gap : List Char
  closesItself : Bool

namespace ComponentTag

def closing (tag : ComponentTag) : List Char :=
  if tag.closesItself then "/>".toList else ">".toList

/-- The tag after its name, with each attribute shown in this way. -/
def body (shown : Attribute → List Char) (tag : ComponentTag) : List Char :=
  tag.attributes.flatMap (fun (gap, own) => gap ++ shown own) ++ (tag.gap ++ tag.closing)

def written (tag : ComponentTag) : List Char :=
  "<x-".toList ++ tag.name ++ tag.body Attribute.written

def lowered (tag : ComponentTag) : List Char :=
  "<x-".toList ++ tag.name ++ tag.body Attribute.lowered

/-- The name of the component and all of its attributes can be told apart again. -/
structure Valid (tag : ComponentTag) : Prop where
  name : IsComponentName tag.name
  attributes : ∀ entry ∈ tag.attributes,
    entry.1 ≠ [] ∧ (∀ c ∈ entry.1, isBlankChar c = true) ∧ entry.2.Valid
  gap : ∀ c ∈ tag.gap, isBlankChar c = true

end ComponentTag

instance (name : List Char) : Decidable (IsPlainName name) :=
  decidable_of_iff (_ ∧ _ ∧ _) ⟨fun ⟨first, letters, colons⟩ => ⟨first, letters, colons⟩,
    fun ⟨first, letters, colons⟩ => ⟨first, letters, colons⟩⟩

instance (value : QuotedValue) : Decidable value.Closed := inferInstanceAs (Decidable (_ ∧ _))

instance (value : QuotedValue) : Decidable value.Plain :=
  inferInstanceAs (Decidable (_ ∧ _ ∧ _ ∧ _ ∧ _))

instance : (own : Attribute) → Decidable own.Valid
  | .plain name value => inferInstanceAs (Decidable (IsPlainName name ∧ ∀ v ∈ value, v.Plain))
  | .escaped name value => inferInstanceAs (Decidable (IsPlainName name ∧ value.Plain))
  | .bound name value => inferInstanceAs (Decidable (_ ∧ (∀ c ∈ name, _) ∧ value.Closed ∧
      ¬ ∀ c ∈ value.inside, _))

instance (tag : ComponentTag) : Decidable tag.Valid :=
  decidable_of_iff (IsComponentName tag.name ∧ (∀ entry ∈ tag.attributes,
      entry.1 ≠ [] ∧ (∀ c ∈ entry.1, isBlankChar c = true) ∧ entry.2.Valid) ∧
      ∀ c ∈ tag.gap, isBlankChar c = true)
    ⟨fun ⟨name, attributes, gap⟩ => ⟨name, attributes, gap⟩,
      fun ⟨name, attributes, gap⟩ => ⟨name, attributes, gap⟩⟩

/-- Text in which nothing begins that the lowering looks for. -/
def IsPlainText (cs : List Char) : Prop := '@' ∉ cs ∧ '\x7b' ∉ cs ∧ '<' ∉ cs

/-- Two texts are plain together just when each is. -/
theorem isPlainText_append {front back : List Char} :
    IsPlainText (front ++ back) ↔ IsPlainText front ∧ IsPlainText back := by
  simp only [IsPlainText, List.mem_append, not_or]
  tauto

/-- Lowering leaves plain text as it is. -/
theorem lower_plainText (extra : List Text) {cs : List Char} (plain : IsPlainText cs) :
    lower extra cs = cs := by
  obtain ⟨noSign, noBrace, noAngle⟩ := plain
  have noMark := noMark_of_noHead noBrace noAngle []
  rw [lower_eq, ← List.append_nil cs, loweredFrom_text (lower extra) noSign noMark]
  rfl

/-- After a character that detaches it a text is divided as on its own. -/
theorem segmentsAfter_detached (extra : List Text) {previous : Option Char}
    (detached : Detached previous) (cs : List Char) :
    segmentsAfter extra 0 previous cs = segmentsAfter extra 0 none cs := by
  have free : (previous.any fun c => isWordChar c || c == '@') = false := by
    rw [Option.any_eq_false]
    intro c member
    obtain ⟨letter, different⟩ := detached c member
    simp [letter, different]
  cases cs with
  | nil => rfl
  | cons c rest =>
      have same : segmentAt extra previous c rest = segmentAt extra none c rest := by
        simp only [segmentAt, directive?, free, Option.any_none]
      simp only [segmentsAfter, same]

/-- The pieces of a tag are plain text, and its lowering shows this text. -/
structure Tag.Shows (tag : Tag) (text : List Char) : Prop where
  start : IsPlainText tag.start
  pieces : ∀ entry ∈ tag.bound, IsPlainText entry.2
  text : tag.lowered id = text

section

variable {tag : Tag} {text : List Char}

/-- A tag that shows a text is lowered to it. -/
theorem Tag.Shows.lowered (shows : tag.Shows text) (extra : List Text) :
    tag.lowered (lower extra) = text := by
  rw [← shows.text, Tag.lowered, Tag.lowered, lower_plainText extra shows.start]
  refine congrArg (tag.start ++ ·) (List.flatMap_congr fun entry member => ?_)
  exact congrArg (code _ ++ ·) (lower_plainText extra (shows.pieces entry member))

/-- Plain text in front of a tag is shown in front of it. -/
theorem Tag.Shows.shown (shows : tag.Shows text) {front : List Char} (plain : IsPlainText front) :
    (tag.shown front).Shows (front ++ text) where
  start := isPlainText_append.mpr ⟨plain, shows.start⟩
  pieces := shows.pieces
  text := by
    rw [← shows.text]
    exact List.append_assoc ..

/-- A bound attribute in front of a tag is shown as its code. -/
theorem Tag.Shows.bind (shows : tag.Shows text) (binding : Binding) :
    (tag.bind binding).Shows (boundCode binding.expression ++ text) where
  start := by simp [Tag.bind, IsPlainText]
  pieces := by
    intro entry member
    rcases List.mem_cons.mp member with rfl | member
    · exact shows.start
    · exact shows.pieces entry member
  text := by
    rw [← shows.text]
    exact Tag.lowered_bind binding [] tag

end

/-- Characters that belong to a bound attribute are passed over. -/
theorem tagAfter_skipped (previous : Option Char) (skipped rest : List Char) :
    tagAfter skipped.length false previous (skipped ++ rest) =
      tagAfter 0 true (lastOf previous skipped) rest := by
  induction skipped generalizing previous with
  | nil => exact tagAfter_start false previous rest
  | cons c skipped inductionHypothesis =>
      rw [lastOf_cons, ← inductionHypothesis]
      rfl

/-- A bound attribute that is not blank is bound, and the tag goes on after it. -/
theorem tagAfter_binding {previous : Option Char} {binding : Binding} (proper : binding.Proper)
    (free : joinsColon previous = false)
    (filled : ¬ ∀ c ∈ binding.expression, isBlankChar c = true) (rest : List Char) :
    tagAfter 0 true previous (binding.written ++ rest) =
      (tagAfter 0 true (lastOf previous binding.written) rest).bind binding := by
  have found : binding? previous (binding.written ++ rest) = some binding :=
    binding?_eq_some_iff.mpr ⟨free, proper, rest, rfl⟩
  obtain ⟨tail, written⟩ : ∃ tail, binding.written = ':' :: tail := ⟨_, rfl⟩
  have size : binding.size - 1 = tail.length := by
    rw [Binding.size, written]
    simp
  rw [written] at found ⊢
  rw [List.cons_append, tagAfter, ← List.cons_append, found]
  simp only [size, List.all_eq_true]
  rw [if_neg filled, tagAfter_skipped, lastOf_cons]

/-- A colon after white space may begin a bound attribute. -/
theorem joinsColon_of_blank {c : Char} (blank : isBlankChar c = true) :
    joinsColon (some c) = false := by
  have apart := isAttributeCharacter_of_blank blank
  simp only [isAttributeCharacter, Bool.or_eq_false_iff] at apart
  simp [joinsColon, apart.1.1.1, apart.1.2, apart.2]

section

variable {name gap : List Char} {value : QuotedValue}

/-- White space is plain text. -/
theorem isPlainText_of_blank (blank : ∀ c ∈ gap, isBlankChar c = true) : IsPlainText gap :=
  ⟨fun member => absurd (blank _ member) (by decide),
    fun member => absurd (blank _ member) (by decide),
    fun member => absurd (blank _ member) (by decide)⟩

/-- A plain name has none of the marks that begin a part. -/
theorem IsPlainName.isPlainText (plain : IsPlainName name) : IsPlainText name := by
  have apart {c : Char} (other : ¬ (isWordChar c = true ∨ c = '-' ∨ c = ':')) : c ∉ name :=
    fun member => other (plain.letters c member)
  refine ⟨apart ?_, apart ?_, apart ?_⟩ <;> simp [Text.isWordChar_mark]

theorem QuotedValue.Plain.isPlainText (plain : value.Plain) : IsPlainText value.written := by
  obtain ⟨⟨quote, -⟩, noSign, noBrace, noAngle, -⟩ := plain
  have other {c : Char} (noQuote : isQuote c = false) : c ≠ value.mark := by
    rintro rfl
    simp [quote] at noQuote
  refine ⟨?_, ?_, ?_⟩
  · simp [written, noSign, other (c := '@') rfl]
  · simp [written, noBrace, other (c := '\x7b') rfl]
  · simp [written, noAngle, other (c := '<') rfl]

/-- No bound attribute begins in a plain value. -/
theorem QuotedValue.Plain.noColon (plain : value.Plain) : ':' ∉ value.written := by
  obtain ⟨⟨quote, -⟩, -, -, -, noColon⟩ := plain
  have other : ':' ≠ value.mark := by
    intro same
    simp [← same, isQuote] at quote
  simp [written, noColon, other]

/-- The colons of a name join it, and colons do not follow it. -/
theorem colonsJoined_name {first : Char} {later following : List Char}
    (colons : (first :: later).IsChain fun before c =>
      c = ':' → isWordChar before = true ∨ before = '-')
    (noColon : ':' ∉ following) : ColonsJoined (some first) (later ++ following) := by
  induction later generalizing first with
  | nil => exact colonsJoined_of_noColon noColon _
  | cons second later inductionHypothesis =>
      obtain ⟨joined, colons⟩ := List.isChain_cons_cons.mp colons
      refine ⟨fun colon => .inl ?_, inductionHypothesis colons⟩
      rcases joined colon with letter | rfl
      · simp [joinsColon, letter]
      · simp [joinsColon]

/-- Each colon of a plain name is joined to the character in front of it. -/
theorem IsPlainName.colonsJoined (plain : IsPlainName name) {following : List Char}
    (noColon : ':' ∉ following) (previous : Option Char) :
    ColonsJoined previous (name ++ following) := by
  have first := plain.first
  cases name with
  | nil => simp at first
  | cons c later =>
      refine ⟨fun colon => ?_, colonsJoined_name plain.colons noColon⟩
      have letter : isWordChar c = true := by simpa using first
      rw [colon] at letter
      exact absurd letter (by simp [Text.isWordChar_mark])

end

/-- No bound attribute begins in an attribute of another kind. -/
theorem Attribute.colonsJoined {own : Attribute} (valid : own.Valid)
    (other : ∀ name value, own ≠ .bound name value) (previous : Option Char) :
    ColonsJoined previous own.written ∧ IsPlainText own.written := by
  cases own with
  | bound name value => exact absurd rfl (other name value)
  | plain name value =>
      obtain ⟨plain, values⟩ := valid
      cases value with
      | none =>
          refine ⟨?_, plain.isPlainText⟩
          have joined : ColonsJoined previous (name ++ []) := plain.colonsJoined (by simp) previous
          simpa [written] using joined
      | some value =>
          have plainValue := values value rfl
          refine ⟨plain.colonsJoined ?_ previous, isPlainText_append.mpr ⟨plain.isPlainText, ?_⟩⟩
          · simpa using plainValue.noColon
          · simpa [IsPlainText] using plainValue.isPlainText
  | escaped name value =>
      obtain ⟨plain, plainValue⟩ := valid
      have noColon : ':' ∉ '=' :: value.written := by simpa using plainValue.noColon
      have joined := plain.colonsJoined noColon (some ':')
      refine ⟨⟨fun _ => .inr rfl, fun _ => .inl (by simp [joinsColon]), joined⟩, ?_⟩
      have text : IsPlainText (name ++ '=' :: value.written) := isPlainText_append.mpr
        ⟨plain.isPlainText, by simpa [IsPlainText] using plainValue.isPlainText⟩
      simpa [IsPlainText, written] using text

/-- The attribute that a bound attribute is found as. -/
def Attribute.binding (name : List Char) (value : QuotedValue) : Binding :=
  ⟨name, [], [], value.mark, value.inside⟩

/-- A valid bound attribute is written as a bound attribute is read. -/
theorem Attribute.binding_proper {name : List Char} {value : QuotedValue}
    (valid : (Attribute.bound name value).Valid) : (Attribute.binding name value).Proper := by
  obtain ⟨nonempty, letters, ⟨quote, absent⟩, -⟩ := valid
  have character : ∀ c ∈ name, isAttributeCharacter c = true ∧ c ≠ ':' := by
    intro c member
    rcases letters c member with letter | rfl
    · refine ⟨by simp [isAttributeCharacter, letter], ?_⟩
      rintro rfl
      exact absurd letter (by simp [Text.isWordChar_mark])
    · simp [isAttributeCharacter]
  have single : name.head? ≠ some ':' := fun first =>
    (character ':' (List.mem_of_mem_head? first)).2 rfl
  exact {
    named := nonempty
    name := fun c member => (character c member).1
    single
    beforeSign := by simp [binding]
    afterSign := by simp [binding]
    mark := quote
    expression := absent }

/-- A tag shows an attribute lowered, whatever kind it is of, and then all that follows. -/
theorem tagAfter_attribute {own : Attribute} (valid : own.Valid) {gap : List Char}
    (blank : ∀ c ∈ gap, isBlankChar c = true) (nonempty : gap ≠ []) {rest text : List Char}
    (shows : ∀ previous, (tagAfter 0 true previous rest).Shows text) (previous : Option Char) :
    (tagAfter 0 true previous (gap ++ own.written ++ rest)).Shows (gap ++ own.lowered ++ text) := by
  have noColon : ':' ∉ gap := fun member => absurd (blank _ member) (by decide)
  have plainGap := isPlainText_of_blank blank
  rw [List.append_assoc, List.append_assoc,
    tagAfter_joined (colonsJoined_of_noColon noColon previous)]
  refine Tag.Shows.shown ?_ plainGap
  obtain ⟨front, last, rfl⟩ : ∃ front last, gap = front ++ [last] :=
    ⟨_, _, (List.dropLast_append_getLast nonempty).symm⟩
  have free : joinsColon (lastOf previous (front ++ [last])) = false := by
    rw [lastOf_concat]
    exact joinsColon_of_blank (blank last (by simp))
  by_cases other : ∀ name value, own ≠ .bound name value
  · obtain ⟨joined, plain⟩ := Attribute.colonsJoined valid other
      (lastOf previous (front ++ [last]))
    have same : own.lowered = own.written := by
      cases own with
      | bound name value => exact absurd rfl (other name value)
      | _ => rfl
    rw [same, tagAfter_joined joined]
    exact (shows _).shown plain
  · simp only [ne_eq, not_forall, not_not] at other
    obtain ⟨name, value, rfl⟩ := other
    have written : (Attribute.bound name value).written =
        (Attribute.binding name value).written := by
      simp [Attribute.written, Attribute.binding, Binding.written, QuotedValue.written]
    have lowered : (Attribute.bound name value).lowered = boundCode value.inside := by
      unfold Attribute.lowered boundCode code
      simp
    have proper := Attribute.binding_proper valid
    obtain ⟨-, -, -, filled⟩ := valid
    rw [written, lowered, tagAfter_binding proper free filled]
    exact (shows _).bind _

section

variable {gap : List Char}

/-- A name opens no quotation. -/
theorem quoteAfter_letters {name : List Char}
    (letters : ∀ c ∈ name, isWordChar c = true ∨ c = '-' ∨ c = ':') :
    quoteAfter none name = some none := by
  refine quoteAfter_plain (fun c member => ?_) (fun member => ?_) none (by simp)
  · rw [Bool.eq_false_iff]
    intro quote
    have apart := (isAttributeCharacter_of_quote quote).1
    simp only [isAttributeCharacter, Bool.or_eq_false_iff, beq_eq_false_iff_ne] at apart
    rcases letters c member with letter | dash | colon
    · simp [letter] at apart
    · exact apart.2 dash
    · exact apart.1.2 colon
  · exact absurd (letters _ member) (by simp [Text.isWordChar_mark])

/-- White space opens no quotation. -/
theorem quoteAfter_blank (blank : ∀ c ∈ gap, isBlankChar c = true) :
    quoteAfter none gap = some none := by
  refine quoteAfter_plain (fun c member => ?_) (fun member => ?_) none (by simp)
  · rw [Bool.eq_false_iff]
    intro quote
    have apart := (isAttributeCharacter_of_quote quote).2
    simp [blank c member] at apart
  · exact absurd (blank _ member) (by decide)

/-- After a closed value no quotation is open. -/
theorem QuotedValue.Closed.quoteAfter {value : QuotedValue} (closed : value.Closed) :
    Blade.quoteAfter none ('=' :: value.written) = some none :=
  quoteAfter_quoted closed.1 closed.2

/-- An attribute leaves the tag open and all its quotes closed. -/
theorem Attribute.quoteAfter {own : Attribute} (valid : own.Valid) :
    Blade.quoteAfter none own.written = some none := by
  have named {name : List Char} {value : QuotedValue} (closed : value.Closed)
      (letters : ∀ c ∈ name, isWordChar c = true ∨ c = '-' ∨ c = ':') :
      Blade.quoteAfter none (name ++ '=' :: value.written) = some none := by
    rw [quoteAfter_append, quoteAfter_letters letters]
    exact closed.quoteAfter
  cases own with
  | plain name value =>
      cases value with
      | none => exact quoteAfter_letters valid.1.letters
      | some value => exact named (valid.2 value rfl).1 valid.1.letters
  | escaped name value =>
      obtain ⟨plain, values⟩ := valid
      have colons : ∀ c ∈ ':' :: ':' :: name, isWordChar c = true ∨ c = '-' ∨ c = ':' := by
        simpa using plain.letters
      exact named values.1 colons
  | bound name value =>
      obtain ⟨-, letters, closed, -⟩ := valid
      have colons : ∀ c ∈ ':' :: name, isWordChar c = true ∨ c = '-' ∨ c = ':' := by
        simpa using fun c member => (letters c member).imp_right Or.inl
      exact named closed colons

/-- White space ends the name of a component. -/
theorem endsName_gap (blank : ∀ c ∈ gap, isBlankChar c = true) {following : List Char}
    (ends : gap = [] → EndsName following) : EndsName (gap ++ following) := by
  cases gap with
  | nil => exact ends rfl
  | cons first gap =>
      rintro c ⟨rfl⟩
      exact isAttributeCharacter_of_blank (blank first List.mem_cons_self)

end

namespace ComponentTag

variable {tag : ComponentTag}

/-- A tag is closed by an angle bracket, perhaps with a slash in front of it. -/
theorem closing_eq (tag : ComponentTag) :
    ∃ slash, (slash = [] ∨ slash = ['/']) ∧ tag.closing = slash ++ ['>'] := by
  unfold closing
  split
  · exact ⟨['/'], .inr rfl, rfl⟩
  · exact ⟨[], .inl rfl, rfl⟩

/-- The body of a valid tag ends the name in front of it. -/
theorem Valid.endsName (valid : tag.Valid) (rest : List Char) :
    EndsName (tag.body Attribute.written ++ rest) := by
  obtain ⟨slash, either, closing⟩ := tag.closing_eq
  have ends : EndsName (tag.gap ++ (tag.closing ++ rest)) := by
    refine endsName_gap valid.gap fun _ => ?_
    rw [closing]
    rcases either with rfl | rfl <;> rintro c ⟨rfl⟩ <;>
      simp [isAttributeCharacter, Text.isWordChar_mark]
  unfold body
  cases attributes : tag.attributes with
  | nil => simpa using ends
  | cons entry later =>
      obtain ⟨gap, own⟩ := entry
      have entryValid := valid.attributes (gap, own) (by simp [attributes])
      simp only [List.flatMap_cons, List.append_assoc]
      exact endsName_gap entryValid.2.1 fun empty => absurd empty entryValid.1

/-- The tag is open up to its last character, which closes it. -/
theorem Valid.body_open (valid : tag.Valid) :
    ∃ inner, tag.body Attribute.written = inner ++ ['>'] ∧ quoteAfter none inner = some none := by
  obtain ⟨slash, either, closing⟩ := tag.closing_eq
  have attributes : quoteAfter none (tag.attributes.flatMap fun (gap, own) =>
      gap ++ own.written) = some none := by
    have each := valid.attributes
    generalize tag.attributes = attributes at each ⊢
    induction attributes with
    | nil => rfl
    | cons entry later inductionHypothesis =>
        obtain ⟨⟨-, blank, own⟩, others⟩ := List.forall_mem_cons.mp each
        rw [List.flatMap_cons, quoteAfter_append, quoteAfter_append, quoteAfter_blank blank,
          Option.bind_some, Attribute.quoteAfter own, Option.bind_some, inductionHypothesis others]
  have ending : quoteAfter none (tag.gap ++ slash) = some none := by
    rw [quoteAfter_append, quoteAfter_blank valid.gap]
    rcases either with rfl | rfl <;> rfl
  refine ⟨_, ?_, (quoteAfter_append none _ _).trans (by rw [attributes, Option.bind_some, ending])⟩
  simp [body, closing]

/-- The body of a valid tag is as long as the lowering takes the tag to be. -/
theorem Valid.tagLength (valid : tag.Valid) (rest : List Char) :
    Blade.tagLength none (tag.body Attribute.written ++ rest) =
      (tag.body Attribute.written).length := by
  obtain ⟨inner, closed, within⟩ := valid.body_open
  rw [closed, List.append_assoc, tagLength_within within, List.length_append]
  rfl

/-- The pieces of a valid tag show its attributes as they are lowered. -/
theorem Valid.shows (valid : tag.Valid) (previous : Option Char) :
    (tagAfter 0 true previous (tag.body Attribute.written)).Shows (tag.body Attribute.lowered) := by
  have ending (previous : Option Char) :
      (tagAfter 0 true previous (tag.gap ++ tag.closing)).Shows (tag.gap ++ tag.closing) := by
    obtain ⟨slash, either, closing⟩ := tag.closing_eq
    have noColon : ':' ∉ tag.gap ++ tag.closing := by
      have inGap : ':' ∉ tag.gap := fun member => absurd (valid.gap _ member) (by decide)
      rw [closing]
      rcases either with rfl | rfl <;> simp [inGap]
    have plain : IsPlainText tag.closing := by
      rw [closing]
      rcases either with rfl | rfl <;> simp [IsPlainText]
    have shown := tagAfter_joined (colonsJoined_of_noColon noColon previous) []
    have ended : (Tag.mk [] []).Shows [] := ⟨by simp [IsPlainText], by simp, rfl⟩
    rw [List.append_nil] at shown
    rw [shown]
    simpa [tagAfter] using ended.shown (isPlainText_append.mpr
      ⟨isPlainText_of_blank valid.gap, plain⟩)
  have each := valid.attributes
  unfold body
  generalize tag.attributes = attributes at each ⊢
  induction attributes generalizing previous with
  | nil => exact ending previous
  | cons entry later inductionHypothesis =>
      obtain ⟨⟨nonempty, blank, ownValid⟩, others⟩ := List.forall_mem_cons.mp each
      have shows := tagAfter_attribute ownValid blank nonempty
        (fun previous => inductionHypothesis previous others) previous
      simpa using shows

end ComponentTag

/-- Only the bound attributes of a component tag become code, and the text after it is lowered as if
it stood alone. -/
theorem lower_componentTag (extra : List Text) (tag : ComponentTag) (valid : tag.Valid)
    (rest : List Char) : lower extra (tag.written ++ rest) = tag.lowered ++ lower extra rest := by
  have shows : (Tag.ofChars (tag.body Attribute.written)).lowered (lower extra) =
      tag.body Attribute.lowered := (valid.shows none).lowered extra
  have last : lastOf none ("<x-".toList ++ tag.name ++ tag.body Attribute.written) = some '>' := by
    obtain ⟨inner, closed, -⟩ := valid.body_open
    rw [closed, ← List.append_assoc, lastOf_concat]
  have after : loweredFrom (lower extra) extra (some '>') rest =
      loweredFrom (lower extra) extra none rest := by
    unfold loweredFrom
    rw [segmentsAfter_detached extra (by decide +kernel)]
  rw [ComponentTag.written, List.append_assoc, lower_eq,
    loweredFrom_component _ extra none valid.name (valid.endsName rest) (valid.tagLength rest),
    shows, last, after, ← lower_eq]
  rfl

/-- A tag with attributes of all kinds. -/
def alert : ComponentTag where
  name := "alert".toList
  attributes := [
    ("\n  ".toList, .plain "wire:click".toList (some ⟨'"', "a > 'b'".toList⟩)),
    (" ".toList, .escaped "class".toList ⟨'\'', "c".toList⟩),
    ("\n\t".toList, .bound "title".toList ⟨'"', "$d->e > __('f')".toList⟩),
    (" ".toList, .plain "open".toList none)]
  gap := " ".toList
  closesItself := true

/-- The tag with attributes of all kinds is lowered, and so is the echo behind it. -/
theorem lower_componentTag_alert : alert.Valid ∧
    lower [] (alert.written ++ "\x7b\x7b $g \x7d\x7d".toList) =
      ("<x-alert\n  wire:click=\"a > 'b'\" ::class='c'\n\t" ++
        "<?php echo ($d->e > __('f')); ?> open /><?php echo e( $g ); ?>").toList := by
  have valid : alert.Valid := by decide +kernel
  refine ⟨valid, ?_⟩
  rw [lower_componentTag [] alert valid]
  decide +kernel

end Untranslated.Blade
