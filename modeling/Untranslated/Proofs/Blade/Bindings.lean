/-
This file tells exactly where a bound attribute begins in a tag, and what may follow a text without
completing one that begins in it.
-/

import Untranslated.Proofs.Blade.Segments
import Untranslated.Proofs.Text.Splitting
import Mathlib.Data.List.Basic

namespace Untranslated.Blade

open Text (isBlankChar isWordChar)

theorem isWordChar_of_blank {c : Char} (blank : isBlankChar c = true) : isWordChar c = false :=
  Text.isWord_of_blank blank

/-- White space ends the name of an attribute. -/
theorem isAttributeCharacter_of_blank {c : Char} (blank : isBlankChar c = true) :
    isAttributeCharacter c = false := by
  have other (d : Char) (filled : isBlankChar d = false) : (c == d) = false := by
    rw [beq_eq_false_iff_ne]
    rintro rfl
    exact absurd blank (by simp [filled])
  simp [isAttributeCharacter, isWordChar_of_blank blank, other '.' (by decide),
    other ':' (by decide), other '-' (by decide)]

/-- A quote ends the name of an attribute, and it is no white space. -/
theorem isAttributeCharacter_of_quote {c : Char} (quote : isQuote c = true) :
    isAttributeCharacter c = false ∧ isBlankChar c = false := by
  simp only [isQuote, Bool.or_eq_true, beq_iff_eq] at quote
  rcases quote with rfl | rfl <;> decide +kernel

/-- A bound attribute as it may be written. -/
structure Binding.Proper (binding : Binding) : Prop where
  named : binding.name ≠ []
  name : ∀ c ∈ binding.name, isAttributeCharacter c = true
  single : binding.name.head? ≠ some ':'
  beforeSign : ∀ c ∈ binding.beforeSign, isBlankChar c = true
  afterSign : ∀ c ∈ binding.afterSign, isBlankChar c = true
  mark : isQuote binding.mark = true
  expression : binding.mark ∉ binding.expression

/-- The text up to a mark is what stands before the first such mark. -/
theorem upTo?_eq_some {mark : Char} {cs expression : List Char} :
    upTo? mark cs = some expression ↔
      mark ∉ expression ∧ ∃ later, cs = expression ++ mark :: later := by
  constructor
  · intro found
    obtain ⟨later, rfl⟩ := upTo?_append found
    refine ⟨fun member => ?_, later, rfl⟩
    have taken : (expression ++ mark :: later).takeWhile (· != mark) = expression := by
      unfold upTo? at found
      rw [if_pos (by simp)] at found
      exact Option.some.inj found
    rw [← taken] at member
    simpa using List.mem_takeWhile_imp member
  · rintro ⟨absent, later, rfl⟩
    have own : ∀ c ∈ expression, (c != mark) = true := by
      intro c member
      simpa using fun same : c = mark => absent (same ▸ member)
    rw [upTo?, if_pos (by simp), takeWhile_stops own (by simp)]

section

variable {previous : Option Char} {cs : List Char} {binding : Binding}

/-- What is read as a bound attribute is one, and its colon joins no word. -/
theorem binding?_proper (found : binding? previous cs = some binding) :
    joinsColon previous = false ∧ binding.Proper := by
  have leads := binding?_leads found
  unfold binding? at found
  split at found
  · rename_i rest
    simp only at found
    split at found
    · simp at found
    · rename_i apart
      simp only [Bool.or_eq_true, beq_iff_eq, not_or, Bool.not_eq_true] at apart
      split at found
      · split at found
        · split at found
          · simp at found
          · rename_i valid
            obtain ⟨expression, inner, rfl⟩ := Option.map_eq_some_iff.mp found
            simp only [Bool.or_eq_true, List.isEmpty_iff, not_or] at valid
            refine ⟨apart.1, valid.1, leads.name, ?_, leads.beforeSign, leads.afterSign,
              leads.mark, (upTo?_eq_some.mp inner).1⟩
            cases rest with
            | nil => simp
            | cons c later =>
                rw [List.takeWhile_cons]
                split
                · exact apart.2
                · simp
        · simp at found
      · simp at found
  · simp at found

/-- A bound attribute begins exactly where one is written, if nothing joins its colon. -/
theorem binding?_eq_some_iff : binding? previous cs = some binding ↔
    joinsColon previous = false ∧ binding.Proper ∧ ∃ later, cs = binding.written ++ later := by
  constructor
  · intro found
    obtain ⟨free, proper⟩ := binding?_proper found
    exact ⟨free, proper, (binding?_leads found).written⟩
  · rintro ⟨free, proper, later, rfl⟩
    obtain ⟨name, beforeSign, afterSign, mark, expression⟩ := binding
    obtain ⟨named, letters, single, before, after, quote, unquoted⟩ := proper
    simp only at named letters single before after quote unquoted
    obtain ⟨first, others, rfl⟩ := List.exists_cons_of_ne_nil named
    have inner : upTo? mark (expression ++ mark :: later) = some expression :=
      upTo?_eq_some.mpr ⟨unquoted, later, rfl⟩
    have written : Binding.written ⟨first :: others, beforeSign, afterSign, mark, expression⟩ ++
        later = ':' :: ((first :: others) ++ (beforeSign ++
          '=' :: (afterSign ++ mark :: (expression ++ mark :: later)))) := by
      simp [Binding.written]
    rw [written]
    generalize expression ++ mark :: later = quoted at inner
    have gap : (afterSign ++ mark :: quoted).takeWhile isBlankChar = afterSign :=
      takeWhile_stops after (by simpa using (isAttributeCharacter_of_quote quote).2)
    have value : (afterSign ++ mark :: quoted).drop afterSign.length = mark :: quoted :=
      List.drop_left
    generalize afterSign ++ mark :: quoted = signed at gap value
    have blanks : (beforeSign ++ '=' :: signed).takeWhile isBlankChar = beforeSign :=
      takeWhile_stops before (by simp; decide)
    have own : ((first :: others) ++ (beforeSign ++ '=' :: signed)).takeWhile
        isAttributeCharacter = first :: others := by
      refine takeWhile_stops letters fun c head => ?_
      cases beforeSign with
      | nil =>
          obtain rfl : '=' = c := by simpa using head
          simp [isAttributeCharacter, Text.isWordChar_mark]
      | cons d rest =>
          obtain rfl : d = c := by simpa using head
          exact isAttributeCharacter_of_blank (before d List.mem_cons_self)
    simp only [binding?, own, List.drop_left, blanks, ← List.drop_drop, gap, value, free, quote,
      inner]
    simpa using single

end

end Untranslated.Blade
