/-
This file proves that an array element without a key never takes a key that stands before it.
The index at which such an element would be put is above all numbers among the keys so far.
-/

import Untranslated.Proofs.Php.ArrayKeys

namespace Untranslated.Php

open Text (decimal? isDigitLike)

/-- An element without a key that is no unpacked array is put at the next index. -/
def isPositional (element : Node) : Bool :=
  match element.parts with
  | [value] => value.kind != .spread
  | _ => false

/-- A key that looks like a number is one below the index. -/
def Passed (index : Nat) (key : Text) : Prop :=
  key ≠ [] → (∀ c ∈ key, isDigitLike c = true) → ∃ n < index, decimal? key = some n

/-- A key that is passed stays behind. -/
theorem Passed.mono {index next : Nat} {key : Text} (passed : Passed index key)
    (further : index ≤ next) : Passed next key := fun filled digits =>
  let ⟨n, below, value⟩ := passed filled digits
  ⟨n, Nat.lt_of_lt_of_le below further, value⟩

/-- The decimal form of a number is read as that number. -/
theorem decimal?_ofNat (n : Nat) : decimal? (Text.ofNat n) = some n := by
  have numeral := ofNat_isNumeral n
  rw [decimal?_digits (isNumeral_all numeral), ofNat_injective (ofNat_number numeral)]

/-- A number is shown by digits. -/
theorem isDigitLike_ofNat (n : Nat) : ∀ c ∈ Text.ofNat n, isDigitLike c = true :=
  fun c member =>
    isDigitLike_digit (List.all_eq_true.mp (isNumeral_all (ofNat_isNumeral n)) c member)

/-- A number is shown by one digit at least. -/
theorem ofNat_filled (n : Nat) : Text.ofNat n ≠ [] := fun empty => by
  have numeral := ofNat_isNumeral n
  rw [empty] at numeral
  cases numeral

/-- A number is passed just when it is below the index. -/
theorem passed_ofNat {index n : Nat} : Passed index (Text.ofNat n) ↔ n < index := by
  constructor
  · intro passed
    obtain ⟨m, below, value⟩ := passed (ofNat_filled n) (isDigitLike_ofNat n)
    rw [decimal?_ofNat] at value
    cases value
    exact below
  · exact fun below _ _ => ⟨n, below, decimal?_ofNat n⟩

/-- Counting on from a key passes it. -/
theorem indexAfter_passes {index next : Nat} {key : Text}
    (counts : indexAfter index key = .ok next) : index ≤ next ∧ Passed next key := by
  obtain ⟨countable, rfl⟩ := indexAfter_eq_ok.mp counts
  have shown : (ArrayKey.text key).stray? =
      if key.isEmpty || !key.all isDigitLike then none else decimal? key := rfl
  constructor
  · cases (ArrayKey.text key).stray? with
    | none => exact Nat.le_refl index
    | some n => exact Nat.le_max_left index (n + 1)
  · intro filled digits
    have looksLikeNumber : ¬ (key.isEmpty || !key.all isDigitLike) = true := by
      simpa [filled] using digits
    rw [if_neg looksLikeNumber] at shown
    cases value : decimal? key with
    | none => exact absurd ⟨filled, digits, .inr (decimal?_eq_none.mp value)⟩ countable
    | some n =>
        rw [shown, value]
        exact ⟨n, Nat.lt_of_lt_of_le (Nat.lt_succ_self n) (Nat.le_max_right index (n + 1)), rfl⟩

section

variable {source : List Char} {index next : Nat} {element : Node}

/-- What an element can do to the index: it never goes back, and it passes the key of the entry. -/
theorem entryAt_passes {entry : Option Entry}
    (here : entryAt source index element = .ok (next, entry)) :
    index ≤ next ∧ ∀ own ∈ entry, Passed next own.key := by
  unfold entryAt at here
  split at here
  · next written value parts =>
    obtain ⟨key, -, here⟩ := bind_eq_ok.mp here
    cases key with
    | none =>
        cases here
        exact ⟨Nat.le_refl index, by simp⟩
    | some key =>
        obtain ⟨after, counts, here⟩ := bind_eq_ok.mp here
        cases here
        obtain ⟨further, passed⟩ := indexAfter_passes counts
        exact ⟨further, by simpa using passed⟩
  · next value parts =>
    split at here
    · cases here
      exact ⟨Nat.le_refl index, by simp⟩
    · obtain ⟨key, own, here⟩ := bind_eq_ok.mp here
      obtain ⟨-, rfl⟩ := indexKey_eq_ok.mp own
      cases here
      exact ⟨Nat.le_succ index, by simpa using passed_ofNat.mpr (Nat.lt_succ_self index)⟩
  · cases here
    exact ⟨Nat.le_refl index, by simp⟩

/-- After any number of elements the index has passed the keys of all their entries. -/
theorem Reads.passes {elements : List Node} {entries : List Entry}
    (reads : Reads source index elements entries next) :
    index ≤ next ∧ ∀ entry ∈ entries, Passed next entry.key := by
  induction reads with
  | done index => exact ⟨Nat.le_refl index, by simp⟩
  | passed here later inductionHypothesis =>
      exact ⟨(entryAt_passes here).1.trans inductionHypothesis.1, inductionHypothesis.2⟩
  | told here later inductionHypothesis =>
      obtain ⟨further, passed⟩ := entryAt_passes here
      exact ⟨further.trans inductionHypothesis.1, List.forall_mem_cons.mpr
        ⟨(passed _ rfl).mono inductionHypothesis.1, inductionHypothesis.2⟩⟩

/-- An element without a key takes the index for its key and moves it by one. -/
theorem entryAt_positional {entry : Option Entry} (positional : isPositional element = true)
    (here : entryAt source index element = .ok (next, entry)) :
    ∃ value, entry = some ⟨Text.ofNat index, value⟩ ∧ next = index + 1 := by
  unfold isPositional at positional
  split at positional
  · next value parts =>
    have own : ¬ (value.kind == .spread) = true := by simpa using positional
    simp only [entryAt, parts] at here
    rw [if_neg own] at here
    obtain ⟨key, told, here⟩ := bind_eq_ok.mp here
    obtain ⟨-, rfl⟩ := indexKey_eq_ok.mp told
    cases here
    exact ⟨value, rfl, rfl⟩
  · cases positional

/-- Elements that are read in a row are read up to any place among them, and on from there. -/
theorem Reads.split {front rest : List Node} {entries : List Entry} {last : Nat}
    (reads : Reads source index (front ++ rest) entries last) :
    ∃ before later middle, entries = before ++ later ∧ Reads source index front before middle ∧
      Reads source middle rest later last := by
  induction front generalizing index entries with
  | nil => exact ⟨[], entries, index, rfl, .done index, reads⟩
  | cons element front inductionHypothesis =>
      cases reads with
      | passed here further =>
          obtain ⟨before, later, middle, rfl, own, others⟩ := inductionHypothesis further
          exact ⟨before, later, middle, rfl, .passed here own, others⟩
      | told here further =>
          obtain ⟨before, later, middle, rfl, own, others⟩ := inductionHypothesis further
          exact ⟨_ :: before, later, middle, rfl, .told here own, others⟩

/-- The entry of an element without a key has the index for its key. -/
theorem Reads.positional {rest : List Node} {entries : List Entry} {last : Nat}
    (positional : isPositional element = true)
    (reads : Reads source index (element :: rest) entries last) :
    ∃ value later, entries = ⟨Text.ofNat index, value⟩ :: later := by
  cases reads with
  | passed here further =>
      obtain ⟨value, absent, -⟩ := entryAt_positional positional here
      cases absent
  | told here further =>
      obtain ⟨value, own, -⟩ := entryAt_positional positional here
      cases own
      exact ⟨value, _, rfl⟩

end

/-- Entries without a failure are read from the first index on. -/
theorem reads_of_entries {source : List Char} {array : Node} {all : List Entry}
    (sound : entries source array = all.map .ok) :
    ∃ last, Reads source 0 (elementsOf array) all last := by
  have noFault : ∀ attempt ∈ entries source array, ∃ entry, attempt = .ok entry := by
    rw [sound]
    intro attempt member
    obtain ⟨entry, -, rfl⟩ := List.mem_map.mp member
    exact ⟨entry, rfl⟩
  obtain ⟨told, last, reads⟩ := reads_of_sound noFault
  have same : all = told := by
    have equal := sound.symm.trans (entries_of_reads reads)
    exact (List.map_inj_right fun _ _ => Except.ok.inj).mp equal
  exact ⟨last, same ▸ reads⟩

/-- In an array whose keys can all be read, the index after any number of elements is above every
number among the keys so far. An element without a key is put there, which no key so far is. -/
theorem entries_unusedPositions {source : List Char} {array : Node} {all : List Entry}
    {front rest : List Node} (sound : entries source array = all.map .ok)
    (split : elementsOf array = front ++ rest) :
    ∃ before later index last, all = before ++ later ∧ Reads source 0 front before index ∧
      Reads source index rest later last ∧ (∀ entry ∈ before, Passed index entry.key) ∧
      ∀ element ∈ rest.head?, isPositional element = true →
        ∃ own ∈ later.head?, own.key = Text.ofNat index ∧ own.key ∉ before.map (·.key) := by
  obtain ⟨last, reads⟩ := reads_of_entries sound
  rw [split] at reads
  obtain ⟨before, later, index, rfl, own, others⟩ := reads.split
  refine ⟨before, later, index, last, rfl, own, others, own.passes.2, ?_⟩
  intro element first positional
  obtain ⟨rest, rfl⟩ : ∃ behind, rest = element :: behind := by
    cases rest with
    | nil => cases first
    | cons head behind =>
        cases first
        exact ⟨behind, rfl⟩
  obtain ⟨value, behind, rfl⟩ := others.positional positional
  refine ⟨_, rfl, rfl, fun used => ?_⟩
  obtain ⟨entry, member, same⟩ := List.mem_map.mp used
  -- A key like this one would be a number below the index.
  have passed := own.passes.2 entry member
  rw [same, passed_ofNat] at passed
  exact Nat.lt_irrefl index passed

/-- Elements of all forms. The first key is a seven in other digits, and the third has a zero in
front. -/
def scatteredArray : List Char :=
  "<?php return ['٧' => 'a', 'b', '012' => 'c', $x => 'd', ...$y, 3 => 'e', 'f'];".toList

/-- The element without a key takes an index that no key before it has. -/
theorem entries_unusedPositions_scattered :
    ∃ program array all before later index last, parse scatteredArray none = .ok program ∧
      program.returnedArray? = some array ∧ entries scatteredArray array = all.map .ok ∧
      all.map (·.key) = ["٧", "8", "012", "3", "13"].map Text.ofString ∧ all = before ++ later ∧
      Reads scatteredArray 0 ((elementsOf array).take 6) before index ∧
      Reads scatteredArray index ((elementsOf array).drop 6) later last ∧
      (∀ entry ∈ before, Passed index entry.key) ∧
      ∃ own ∈ later.head?, own.key = Text.ofNat index ∧ own.key ∉ before.map (·.key) := by
  have reads : (parse scatteredArray none).toOption.map (fun program =>
      program.returnedArray?.map fun array =>
        ((entries scatteredArray array).map fun attempt => attempt.toOption.map (·.key),
          ((elementsOf array).drop 6).head?.map isPositional)) =
      some (some (["٧", "8", "012", "3", "13"].map fun key => some (Text.ofString key),
        some true)) := by
    decide +kernel
  obtain ⟨program, valid, reads⟩ := ok_of_toOption reads
  obtain ⟨array, returns, facts⟩ := Option.map_eq_some_iff.mp reads
  obtain ⟨keys, seventh⟩ := Prod.mk.inj facts
  obtain ⟨element, first, positional⟩ := Option.map_eq_some_iff.mp seventh
  have noFault : ∀ attempt ∈ entries scatteredArray array, ∃ entry, attempt = .ok entry := by
    intro attempt member
    have shown := List.mem_map_of_mem (f := fun attempt => attempt.toOption.map (·.key)) member
    rw [keys] at shown
    cases attempt with
    | ok entry => exact ⟨entry, rfl⟩
    | error e => simp [Except.toOption] at shown
  obtain ⟨all, _, complete⟩ := reads_of_sound noFault
  have sound := entries_of_reads complete
  obtain ⟨before, later, index, last, joined, front, behind, passed, fresh⟩ :=
    entries_unusedPositions sound (List.take_append_drop 6 (elementsOf array)).symm
  refine ⟨program, array, all, before, later, index, last, valid, returns, sound, ?_, joined,
    front, behind, passed, fresh element first positional⟩
  rw [sound, List.map_map] at keys
  refine (List.map_inj_right fun _ _ => Option.some.inj).mp ?_
  rw [List.map_map, List.map_map]
  exact keys

end Untranslated.Php
