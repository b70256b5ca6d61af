/-
This file proves that the segments of a template join to it, and so do the pieces of a tag.
-/

import Untranslated.Blade.Lowering
import Untranslated.Proofs.Blade.Arguments

namespace Untranslated.Blade

open Text (isBlankChar isWordChar)

/-- What is left after a beginning is the rest of the text behind it. -/
theorem after?_eq_some {start cs rest : List Char} :
    after? start cs = some rest ↔ cs = start ++ rest := by
  unfold after?
  constructor
  · intro found
    split at found
    · rename_i begins
      obtain ⟨rest, rfl⟩ := List.isPrefixOf_iff_prefix.mp begins
      simpa using found
    · simp at found
  · rintro rfl
    simp

/-- The text before an ending stands before it. -/
theorem before?_append {ending cs body : List Char} (found : before? ending cs = some body) :
    ∃ later, cs = body ++ ending ++ later := by
  induction cs generalizing body with
  | nil =>
      cases ending with
      | nil => exact ⟨[], by simpa [before?] using found.symm⟩
      | cons mark ending => simp [before?] at found
  | cons c rest inductionHypothesis =>
      rw [before?] at found
      split at found
      · rename_i begins
        obtain ⟨later, joined⟩ := List.isPrefixOf_iff_prefix.mp begins
        exact ⟨later, by simp [← Option.some.inj found, joined]⟩
      · obtain ⟨inner, later, rfl⟩ := Option.map_eq_some_iff.mp found
        obtain ⟨tail, rfl⟩ := inductionHypothesis later
        exact ⟨tail, rfl⟩

/-- A body that is found stands between its two marks at the front of the text. -/
theorem between?_append {opening closing : String} {cs body : List Char}
    (found : between? opening closing cs = some body) :
    ∃ later, cs = opening.toList ++ body ++ closing.toList ++ later := by
  obtain ⟨rest, begins, inner⟩ := Option.bind_eq_some_iff.mp found
  obtain ⟨later, rfl⟩ := before?_append inner
  exact ⟨later, by rw [after?_eq_some.mp begins]; simp⟩

/-- A block is what follows up to its end, or all that follows. -/
theorem blockBody_append (ending : String) (cs : List Char) :
    ∃ later, cs = (blockBody ending cs).1 ++ (blockBody ending cs).2 ++ later := by
  unfold blockBody
  cases found : before? ending.toList cs with
  | none => exact ⟨[], by simp⟩
  | some body => exact before?_append found

/-- A block ends with its ending, or with the text. -/
theorem blockBody_ending (ending : String) (cs : List Char) :
    (blockBody ending cs).2 = ending.toList ∨ (blockBody ending cs).2 = [] := by
  unfold blockBody
  cases before? ending.toList cs with
  | none => exact .inr rfl
  | some body => exact .inl rfl

/-- The names and the endings of a segment are those that the lowering knows of. -/
def Segment.Proper : Segment → Prop
  | .unknown name | .bare name | .call name _ => ∀ c ∈ name, isWordChar c = true
  | .component name _ => ∀ c ∈ name, isAttributeCharacter c = true
  | .codeBlock _ ending => ending = "@endphp".toList ∨ ending = []
  | .verbatim _ ending => ending = "@endverbatim".toList ∨ ending = []
  | _ => True

/-- A segment that stands at the front of a text. -/
structure Segment.Leads (segment : Segment) (cs : List Char) : Prop where
  proper : segment.Proper
  written : ∃ later, cs = segment.written ++ later

theorem Segment.written_length (segment : Segment) : 0 < segment.written.length := by
  unfold written
  cases segment <;> simp

/-- A part that is found between its marks stands at the front of the text. -/
theorem leads_of_between {opening closing : String} {make : List Char → Segment} {cs : List Char}
    {segment : Segment} (found : (between? opening closing cs).map make = some segment)
    (proper : ∀ body, (make body).Proper)
    (written : ∀ body, (make body).written = opening.toList ++ body ++ closing.toList) :
    segment.Leads cs := by
  obtain ⟨body, inner, rfl⟩ := Option.map_eq_some_iff.mp found
  obtain ⟨later, rfl⟩ := between?_append inner
  exact ⟨proper body, later, by rw [written]⟩

section

variable {cs : List Char} {segment : Segment}

theorem comment?_leads (found : comment? cs = some segment) : segment.Leads cs :=
  leads_of_between found (fun _ => trivial) fun _ => rfl

theorem raw?_leads (found : raw? cs = some segment) : segment.Leads cs :=
  leads_of_between found (fun _ => trivial) fun _ => rfl

theorem echo?_leads (found : echo? cs = some segment) : segment.Leads cs :=
  leads_of_between found (fun _ => trivial) fun _ => rfl

theorem escaped?_leads (found : escaped? cs = some segment) : segment.Leads cs := by
  obtain ⟨rest, sign, shown⟩ := Option.bind_eq_some_iff.mp found
  obtain ⟨echo, either, made⟩ := Option.bind_eq_some_iff.mp shown
  obtain rfl := Option.some.inj made
  have leads : echo.Leads rest := by
    rcases Option.or_eq_some_iff.mp (by simpa using either) with first | ⟨_, second⟩
    · exact echo?_leads first
    · exact raw?_leads second
  obtain ⟨later, joined⟩ := leads.written
  exact ⟨trivial, later, by rw [after?_eq_some.mp sign, joined]; rfl⟩

theorem component?_leads (found : component? cs = some segment) : segment.Leads cs := by
  obtain ⟨rest, begins, named⟩ := Option.bind_eq_some_iff.mp found
  simp only at named
  split at named
  · simp at named
  · obtain rfl := Option.some.inj named
    refine ⟨fun c member => List.mem_takeWhile_imp member, ?_⟩
    have joined := takeWhile_append_drop isAttributeCharacter rest
    generalize rest.drop (rest.takeWhile isAttributeCharacter).length = later at joined ⊢
    refine ⟨later.drop (tagLength none later), ?_⟩
    rw [after?_eq_some.mp begins]
    unfold Segment.written
    simp [joined]

theorem doubledSign?_leads (found : doubledSign? cs = some segment) : segment.Leads cs := by
  unfold doubledSign? at found
  split at found
  · rename_i begins
    obtain ⟨later, joined⟩ := List.isPrefixOf_iff_prefix.mp begins
    obtain rfl := Option.some.inj found
    exact ⟨trivial, later, joined.symm⟩
  · simp at found

/-- A directive takes its name and what belongs to it. -/
theorem knownDirective_leads {name rest : List Char} (word : ∀ c ∈ name, isWordChar c = true) :
    (knownDirective name rest).Leads ('@' :: name ++ rest) := by
  unfold knownDirective
  split
  · rename_i verbatim
    obtain ⟨later, joined⟩ := blockBody_append "@endverbatim" rest
    refine ⟨blockBody_ending _ _, later, ?_⟩
    rw [show name = "verbatim".toList by simpa using verbatim]
    unfold Segment.written
    simpa using joined
  · split
    · rename_i arguments found
      obtain ⟨later, rfl⟩ := arguments?_append found
      refine ⟨word, later, ?_⟩
      unfold Segment.written
      simp
    · split
      · rename_i php
        obtain ⟨later, joined⟩ := blockBody_append "@endphp" rest
        refine ⟨blockBody_ending _ _, later, ?_⟩
        rw [show name = "php".toList by simpa using php]
        unfold Segment.written
        simpa using joined
      · exact ⟨word, rest, rfl⟩

theorem directive?_leads (extra : List Text) (previous : Option Char)
    (found : directive? extra previous cs = some segment) : segment.Leads cs := by
  obtain ⟨rest, sign, named⟩ := Option.bind_eq_some_iff.mp found
  have word : ∀ c ∈ rest.takeWhile isWordChar, isWordChar c = true :=
    fun c member => List.mem_takeWhile_imp member
  have joined := takeWhile_append_drop isWordChar rest
  rw [after?_eq_some.mp sign, ← joined]
  simp only at named
  split at named
  · simp at named
  · split at named
    · obtain rfl := Option.some.inj named
      exact knownDirective_leads word
    · obtain rfl := Option.some.inj named
      exact ⟨word, _, rfl⟩

end

/-- The first of two readings stands at the front of the text, if each of them does. -/
theorem orElse_leads {first second : Option Segment} {cs : List Char}
    (ifFirst : ∀ segment, first = some segment → segment.Leads cs)
    (ifSecond : ∀ segment, second = some segment → segment.Leads cs) (segment : Segment)
    (found : (first <|> second) = some segment) : segment.Leads cs := by
  cases chosen : first with
  | some other => exact ifFirst segment (by simpa [chosen] using found)
  | none => exact ifSecond segment (by simpa [chosen] using found)

/-- The segment that is read at a place stands there. -/
theorem segmentAt_leads (extra : List Text) (previous : Option Char) (c : Char)
    (rest : List Char) : (segmentAt extra previous c rest).Leads (c :: rest) := by
  have commentLeads (segment : Segment) (found : comment? (c :: rest) = some segment) :=
    comment?_leads found
  have leads := orElse_leads commentLeads <| orElse_leads (fun _ => escaped?_leads) <|
    orElse_leads (fun _ => raw?_leads) <| orElse_leads (fun _ => echo?_leads) <|
    orElse_leads (fun _ => component?_leads) <| orElse_leads (fun _ => doubledSign?_leads) <|
    fun _ => directive?_leads extra previous
  unfold segmentAt
  simp only
  generalize (_ <|> _ : Option Segment) = choice at leads ⊢
  cases choice with
  | none => exact ⟨trivial, rest, rfl⟩
  | some segment => exact leads segment rfl

/-- No character is lost between segments, and none belongs to two of them. -/
theorem segmentsAfter_written (extra : List Text) (skipped : Nat) (previous : Option Char)
    (cs : List Char) :
    (segmentsAfter extra skipped previous cs).flatMap Segment.written = cs.drop skipped ∧
      ∀ segment ∈ segmentsAfter extra skipped previous cs, segment.Proper := by
  induction cs generalizing skipped previous with
  | nil => simp [segmentsAfter]
  | cons c rest inductionHypothesis =>
      cases skipped with
      | succ skipped => exact inductionHypothesis skipped (some c)
      | zero =>
          have leads := segmentAt_leads extra previous c rest
          obtain ⟨later, joined⟩ := leads.written
          have positive := (segmentAt extra previous c rest).written_length
          obtain ⟨written, proper⟩ :=
            inductionHypothesis ((segmentAt extra previous c rest).written.length - 1) (some c)
          have skips : rest.drop ((segmentAt extra previous c rest).written.length - 1) = later := by
            calc
              rest.drop ((segmentAt extra previous c rest).written.length - 1) =
                  (c :: rest).drop ((segmentAt extra previous c rest).written.length - 1 + 1) := rfl
              _ = later := by rw [Nat.sub_add_cancel positive, joined, List.drop_left]
          simp only [segmentsAfter, List.flatMap_cons, List.mem_cons, forall_eq_or_imp]
          exact ⟨by rw [written, skips, List.drop_zero, ← joined], leads.proper, proper⟩

/-- The segments of a template are its text, in one piece. -/
theorem segments_written (extra : List Text) (template : List Char) :
    (segments extra template).flatMap Segment.written = template :=
  (segmentsAfter_written extra 0 none template).1

/-- All segments of a template are such as the lowering knows of. -/
theorem segments_proper (extra : List Text) (template : List Char) :
    ∀ segment ∈ segments extra template, segment.Proper :=
  (segmentsAfter_written extra 0 none template).2

/-- A segment of a template is no longer than the template. -/
theorem segments_length {extra : List Text} {template : List Char} {segment : Segment}
    (member : segment ∈ segments extra template) :
    segment.written.length ≤ template.length := by
  have inside : segment.written ∈ (segments extra template).map Segment.written :=
    List.mem_map_of_mem member
  have sublist := List.sublist_flatten_of_mem inside
  rw [← List.flatMap_def, segments_written] at sublist
  exact sublist.length_le

/-- The text up to a mark stands in front of the mark. -/
theorem upTo?_append {mark : Char} {cs expression : List Char}
    (found : upTo? mark cs = some expression) : ∃ later, cs = expression ++ mark :: later := by
  unfold upTo? at found
  split at found
  · rename_i present
    obtain rfl := Option.some.inj found
    obtain ⟨before, later, rfl, absent⟩ :=
      List.eq_append_cons_of_mem (List.contains_iff_mem.mp present)
    have own : ∀ c ∈ before, (c != mark) = true := by
      intro c member
      simpa using fun same : c = mark => absent (same ▸ member)
    rw [List.takeWhile_append_of_pos own, List.takeWhile_cons_of_neg (by simp), List.append_nil]
    exact ⟨later, rfl⟩
  · simp at found

/-- A bound attribute has its names and blanks, and stands at the front of a text. -/
structure Binding.Leads (binding : Binding) (cs : List Char) : Prop where
  name : ∀ c ∈ binding.name, isAttributeCharacter c = true
  beforeSign : ∀ c ∈ binding.beforeSign, isBlankChar c = true
  afterSign : ∀ c ∈ binding.afterSign, isBlankChar c = true
  mark : isQuote binding.mark = true
  written : ∃ later, cs = binding.written ++ later

/-- A bound attribute that is read stands at the front of the text. -/
theorem binding?_leads {previous : Option Char} {cs : List Char} {binding : Binding}
    (found : binding? previous cs = some binding) : binding.Leads cs := by
  unfold binding? at found
  split at found
  · rename_i rest
    simp only at found
    split at found
    · simp at found
    · split at found
      · rename_i value sign
        split at found
        · rename_i mark quoted opens
          split at found
          · simp at found
          · rename_i valid
            obtain ⟨expression, inner, rfl⟩ := Option.map_eq_some_iff.mp found
            obtain ⟨later, rfl⟩ := upTo?_append inner
            have names := takeWhile_append_drop isAttributeCharacter rest
            have blanks := takeWhile_append_drop isBlankChar
              (rest.drop (rest.takeWhile isAttributeCharacter).length)
            have gap := takeWhile_append_drop isBlankChar value
            rw [List.drop_drop, sign] at blanks
            rw [opens] at gap
            simp only [Bool.or_eq_true, Bool.not_eq_true', not_or, Bool.not_eq_false] at valid
            refine ⟨fun c member => List.mem_takeWhile_imp member,
              fun c member => List.mem_takeWhile_imp member,
              fun c member => List.mem_takeWhile_imp member, valid.2, later, ?_⟩
            calc
              ':' :: rest = ':' :: (rest.takeWhile isAttributeCharacter ++
                  ((rest.drop (rest.takeWhile isAttributeCharacter).length).takeWhile isBlankChar ++
                    '=' :: (value.takeWhile isBlankChar ++ mark :: (expression ++ mark :: later)))) := by
                rw [gap, blanks, names]
              _ = _ := by simp [Binding.written]
        · simp at found
      · simp at found
  · simp at found

/-- The text that a tag is written as. -/
def Tag.written (tag : Tag) : List Char :=
  tag.start ++ tag.bound.flatMap fun (binding, piece) => binding.written ++ piece

theorem Tag.cons_written (c : Char) (tag : Tag) : (tag.cons c).written = c :: tag.written := rfl

theorem Tag.bind_written (binding : Binding) (tag : Tag) :
    (tag.bind binding).written = binding.written ++ tag.written := by
  simp [Tag.bind, Tag.written]

/-- Every binding of a tag stands at the front of a text, and no character is lost around it. -/
theorem tagAfter_written (skipped : Nat) (kept : Bool) (previous : Option Char) (cs : List Char) :
    (tagAfter skipped kept previous cs).written = (if kept then cs else cs.drop skipped) ∧
      ∀ entry ∈ (tagAfter skipped kept previous cs).bound, ∃ rest, entry.1.Leads rest := by
  induction cs generalizing skipped kept previous with
  | nil => cases kept <;> simp [tagAfter, Tag.written]
  | cons c rest inductionHypothesis =>
      cases skipped with
      | succ skipped =>
          have later := inductionHypothesis skipped kept (some c)
          cases kept with
          | true => exact ⟨by simpa [tagAfter, Tag.cons_written] using later.1, later.2⟩
          | false => exact ⟨by simpa [tagAfter] using later.1, later.2⟩
      | zero =>
          have whole : (if kept then c :: rest else (c :: rest).drop 0) = c :: rest := by simp
          rw [whole]
          cases found : binding? previous (c :: rest) with
          | none =>
              have later := inductionHypothesis 0 true (some c)
              simp only [tagAfter, found]
              exact ⟨by simpa [Tag.cons_written] using later.1, later.2⟩
          | some binding =>
              by_cases blank : binding.expression.all isBlankChar = true
              · have later := inductionHypothesis (binding.size - 1) true (some c)
                simp only [tagAfter, found, blank, if_true]
                exact ⟨by simpa [Tag.cons_written] using later.1, later.2⟩
              · have later := inductionHypothesis (binding.size - 1) false (some c)
                have leads := binding?_leads found
                obtain ⟨tail, joined⟩ := leads.written
                have positive : 0 < binding.written.length := by simp [Binding.written]
                simp only [tagAfter, found, blank, Bool.false_eq_true, if_false]
                refine ⟨?_, ?_⟩
                · rw [Tag.bind_written, later.1, if_neg (by simp), Binding.size]
                  calc
                    binding.written ++ rest.drop (binding.written.length - 1) =
                        binding.written ++
                          (c :: rest).drop (binding.written.length - 1 + 1) := rfl
                    _ = c :: rest := by
                      rw [Nat.sub_add_cancel positive, joined, List.drop_left]
                · intro entry member
                  rcases List.mem_cons.mp member with rfl | member
                  · exact ⟨_, leads⟩
                  · exact later.2 entry member

/-- The pieces of a tag and its bound attributes are its text again. -/
theorem Tag.ofChars_written (cs : List Char) : (Tag.ofChars cs).written = cs :=
  (tagAfter_written 0 true none cs).1

/-- Each bound attribute of a tag stands somewhere in it. -/
theorem Tag.ofChars_leads (cs : List Char) :
    ∀ entry ∈ (Tag.ofChars cs).bound, ∃ rest, entry.1.Leads rest :=
  (tagAfter_written 0 true none cs).2

/-- The first piece of a tag is no longer than the tag. -/
theorem Tag.start_length (cs : List Char) : (Tag.ofChars cs).start.length ≤ cs.length := by
  have written := congrArg List.length (Tag.ofChars_written cs)
  simp only [Tag.written, List.length_append] at written
  omega

/-- A piece of a tag is no longer than the tag. -/
theorem Tag.piece_length {cs : List Char} {entry : Binding × List Char}
    (member : entry ∈ (Tag.ofChars cs).bound) : entry.2.length ≤ cs.length := by
  have inside : entry.1.written ++ entry.2 ∈
      (Tag.ofChars cs).bound.map fun (binding, piece) => binding.written ++ piece :=
    List.mem_map_of_mem (f := fun (binding, piece) => binding.written ++ piece) member
  have sublist := List.sublist_flatten_of_mem inside
  rw [← List.flatMap_def] at sublist
  have written := congrArg List.length (Tag.ofChars_written cs)
  have length := sublist.length_le
  simp only [Tag.written, List.length_append] at written length
  omega

end Untranslated.Blade
