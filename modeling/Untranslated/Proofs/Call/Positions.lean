/-
This file proves that the place of a call is a place in the text as it is written.
The tree is read from the masked text, whose bytes have the same places and the same lines.
-/

import Mathlib.Data.List.ReduceOption
import Untranslated.Call.Site
import Untranslated.Proofs.Results
import Untranslated.Proofs.Text.Utf8

namespace Untranslated.Php

open Utf8 (afterLast encode encode_append encode_cons)

/-- The masked text has its newlines at the same bytes. -/
theorem mask_newlines (text : List Char) :
    (encode (mask text)).map (· == 10) = (encode text).map (· == 10) := by
  fun_induction mask text with
  | case1 => rfl
  | case2 rest inductionHypothesis =>
      have mark : (String.utf8EncodeChar (if beginsXml rest then '_' else '?')).map (· == 10) =
          (String.utf8EncodeChar '?').map (· == 10) := by
        split <;> rfl
      simp only [encode_cons, List.map_append, mark, inductionHypothesis]
  | case3 c rest different inductionHypothesis =>
      simp only [encode_cons, List.map_append, inductionHypothesis]

/-- The byte at which a character of a text begins. -/
def byteOffset (text : List Char) (count : Nat) : Nat := (encode (text.take count)).length

theorem count_newlines (bytes : Utf8.Bytes) :
    bytes.count 10 = (bytes.map (· == 10)).count true := by
  rw [List.count_eq_countP, List.count_eq_countP, List.countP_map]
  refine List.countP_congr fun byte _ => ?_
  simp

/-- So many lines end in the masked bytes before a character as in the text before it. -/
theorem count_masked (text : List Char) (count : Nat) :
    ((encode (mask text)).take (byteOffset text count)).count 10 =
      (text.take count).count '\n' := by
  have front : (encode text).take (byteOffset text count) = encode (text.take count) := by
    have split : encode text = encode (text.take count) ++ encode (text.drop count) := by
      rw [← encode_append, List.take_append_drop]
    rw [split, byteOffset, List.take_left]
  rw [count_newlines, List.map_take, mask_newlines, ← List.map_take, ← count_newlines, front,
    Utf8.count_encode]

/-- The text from a place on. The lines are cut at the newlines, and the line of the place loses the
characters in front of its column. -/
def textFrom? (text : List Char) (place : Position) : Option (List Char) :=
  match (text.splitOn '\n').drop (place.line - 1) with
  | [] => none
  | line :: later =>
    if place.column - 1 ≤ line.length then
      some (['\n'].intercalate (line.drop (place.column - 1) :: later))
    else none

/-- The lines from the last one of the front on. -/
theorem drop_splitOn (front back : List Char) :
    ((front ++ back).splitOn '\n').drop (front.count '\n') =
      (back.splitOn '\n').modifyHead (lastLine front ++ ·) := by
  induction front using List.reverseRecOn generalizing back with
  | nil =>
      change back.splitOn '\n' = (back.splitOn '\n').modifyHead ([] ++ ·)
      cases back.splitOn '\n' <;> rfl
  | append_singleton front c inductionHypothesis =>
      rw [List.append_assoc, List.singleton_append, lastLineSnoc, List.count_append]
      have cut := inductionHypothesis (c :: back)
      rw [List.splitOn_cons_eq_if_modifyHead] at cut
      by_cases newline : c = '\n'
      · subst newline
        have one : ['\n'].count '\n' = 1 := rfl
        rw [one, ← List.drop_drop, cut]
        cases back.splitOn '\n' <;> rfl
      · have none : [c].count '\n' = 0 := by simp [newline]
        have other : (c == '\n') = false := by simp [newline]
        rw [none, Nat.add_zero, cut, other, if_neg newline]
        cases back.splitOn '\n' <;> simp

/-- From the place after the front on stands what follows the front. -/
theorem textFrom?_after (front back : List Char) :
    textFrom? (front ++ back) (Position.after front) = some back := by
  have whole : ['\n'].intercalate (back.splitOn '\n') = back := List.intercalate_splitOn '\n'
  cases cut : back.splitOn '\n' with
  | nil => exact absurd cut (List.splitOn_ne_nil _ _)
  | cons line later =>
      rw [cut] at whole
      have lines := drop_splitOn front back
      rw [cut] at lines
      simp only [textFrom?, Position.after, Nat.add_sub_cancel, lines, List.modifyHead_cons]
      rw [if_pos (by simp), List.drop_left, whole]

/-- A parsed file has the text as it was written. -/
theorem parse_written {text : List Char} {path : Option Text} {program : Program}
    (parsed : parse text path = .ok program) : program.source.written = text := by
  unfold parse at parsed
  dsimp only at parsed
  split at parsed
  · cases parsed
    rfl
  · cases parsed

end Untranslated.Php

namespace Untranslated.Call

open Php (Aliases Node Program Unreadable byteOffset mask textFrom?)
open Utf8 (afterLast column encode)

/-- A call stands in a text where its position says. The line counts the newlines before its byte
in the masked text, the column belongs to its byte in the text as written, and there the text of
the call begins. -/
structure Site.StandsIn (text : List Char) (site : Site) : Prop where
  line : site.position.line =
    1 + ((encode (mask text)).take (byteOffset text site.node.start)).count 10
  column : site.position.column = column (encode text) (byteOffset text site.node.start)
  here : textFrom? text site.position = some (text.drop site.node.start)
  begins : site.node.text text <+: Text.ofChars (text.drop site.node.start)

/-- A site with the position behind the text in front of it stands where that says. -/
theorem Site.standsIn {text : List Char} {site : Site}
    (placed : site.position = .after (text.take site.node.start)) : site.StandsIn text where
  line := by
    rw [placed, Php.count_masked]
    exact Nat.add_comm _ _
  column := by
    rw [placed, byteOffset, Utf8.column_encode (List.take_prefix _ _)]
    exact Nat.add_comm _ _
  here := by
    have after := Php.textFrom?_after (text.take site.node.start) (text.drop site.node.start)
    rwa [List.take_append_drop, ← placed] at after
  begins := (List.take_prefix _ _).map _

/-- A call site is told by its label and its node. -/
theorem siteAt?_some {program : Program} {targets : Targets} {aliases : Aliases} {node : Node}
    {site : Site} (found : siteAt? program targets aliases node = .ok (some site)) :
    ∃ name, label? program.source.written targets aliases node = .ok (some name) ∧
      site = ⟨node, name, program.source.position node.start, argumentsOf node⟩ := by
  rw [siteAt?] at found
  cases label : label? program.source.written targets aliases node with
  | error e =>
      rw [label] at found
      cases found
  | ok label' =>
      rw [label] at found
      cases label' with
      | none => cases found
      | some name =>
          cases found
          exact ⟨name, rfl, rfl⟩

/-- The position of a call is the place of its node. -/
theorem siteAt?_position {program : Program} {targets : Targets} {aliases : Aliases} {node : Node}
    {site : Site} (found : siteAt? program targets aliases node = .ok (some site)) :
    site.position = .after (program.source.written.take site.node.start) := by
  obtain ⟨name, -, rfl⟩ := siteAt?_some found
  exact Php.advanceAfter _ _

/-- Every call of a program is found at one of its nodes. -/
theorem mem_sites {program : Program} {targets : Targets} {found : List Site}
    (calls : sites program targets = .ok found) {site : Site} (member : site ∈ found) :
    ∃ node ∈ program.root.nodes,
      siteAt? program targets program.aliases node = .ok (some site) := by
  rw [sites] at calls
  cases all : program.root.nodes.mapM (siteAt? program targets program.aliases) with
  | error e =>
      rw [all] at calls
      cases calls
  | ok results =>
      rw [all] at calls
      cases calls
      exact mem_mapM all (List.reduceOption_mem_iff.mp member)

/-- Masking keeps the length of a text in bytes and the places of its newlines. A column counts the
characters since the last newline. Every call stands where its position says, whether or not the
search for calls comes to its end. -/
theorem sites_position (text : List Char) :
    (encode (mask text)).length = (encode text).length ∧
      (∀ place : Nat, (encode (mask text))[place]? = some 10 ↔ (encode text)[place]? = some 10) ∧
      (∀ front, front <+: text →
        column (encode text) (encode front).length = 1 + (afterLast '\n' front).length) ∧
      ∀ path program targets, Php.parse text path = .ok program →
        (∀ node site, siteAt? program targets program.aliases node = .ok (some site) →
          site.StandsIn text) ∧
        ∀ found, sites program targets = .ok found → ∀ site ∈ found, site.StandsIn text := by
  have newlines := Php.mask_newlines text
  refine ⟨?_, fun place => ?_, fun front => Utf8.column_encode, ?_⟩
  · simpa using congrArg List.length newlines
  · have same := congrArg (·[place]? == some true) newlines
    simp only [List.getElem?_map] at same
    cases masked : (encode (mask text))[place]? <;> cases plain : (encode text)[place]? <;>
      simp_all
  · intro path program targets parsed
    rw [← Php.parse_written parsed]
    refine ⟨fun node site is => Site.standsIn (siteAt?_position is),
      fun found calls site member => ?_⟩
    obtain ⟨node, -, is⟩ := mem_sites calls member
    exact Site.standsIn (siteAt?_position is)

/-- A declaration that is masked, and a call behind characters of several bytes. -/
def accented : List Char := "<?xml é?>\n<p>é</p><?php f('é'); __('b');".toList

/-- The call stands in the second line, behind two characters of two bytes. -/
theorem sites_position_accented :
    ∃ program found, Php.parse accented none = .ok program ∧ sites program .default = .ok found ∧
      found.map (·.position) = [⟨2, 23⟩] ∧ ∀ site ∈ found, site.StandsIn accented := by
  have told : ((Php.parse accented none).toOption.bind fun program =>
      (sites program .default).toOption.map (·.map (·.position))) = some [⟨2, 23⟩] := by
    decide +kernel
  cases parsed : Php.parse accented none with
  | error e => simp [parsed, Except.toOption] at told
  | ok program =>
      cases calls : sites program .default with
      | error e => simp [parsed, calls, Except.toOption] at told
      | ok found =>
          have position : found.map (·.position) = [⟨2, 23⟩] := by
            simpa [parsed, calls, Except.toOption] using told
          obtain ⟨-, -, -, stands⟩ := sites_position accented
          exact ⟨program, found, rfl, calls, position,
            (stands none program .default parsed).2 found calls⟩

end Untranslated.Call
