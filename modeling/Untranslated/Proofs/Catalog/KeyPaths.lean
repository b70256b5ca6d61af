/-
This file proves that the keys of a returned array are the paths to its entries, joined with dots.
The empty keys in front of a path are lost, save the last key.
-/

import Untranslated.Catalog.LanguageFile
import Untranslated.Proofs.Call.Positions
import Untranslated.Proofs.Php.UnreadableKeys

namespace Untranslated.Php

section

variable {source : List Char} {array : Node} {start key : Text} {depth : Nat}

/-- A path leads from an array to an entry, through entries whose values are arrays. -/
inductive KeyPath (source : List Char) : Node → List Text → Prop where
  | entry {array : Node} {entry : Entry} (member : .ok entry ∈ entries source array) :
      KeyPath source array [entry.key]
  | inside {array : Node} {entry : Entry} {path : List Text}
      (member : .ok entry ∈ entries source array) (nested : entry.value.kind = .array)
      (further : KeyPath source entry.value path) : KeyPath source array (entry.key :: path)

/-- The same, as a test. -/
def hasKeyPath (source : List Char) : List Text → Node → Bool
  | [], _ => false
  | [key], array => (entries source array).any fun attempt => attempt.toOption.any (·.key = key)
  | key :: next :: rest, array =>
    (entries source array).any fun attempt => attempt.toOption.any fun entry =>
      entry.key = key && entry.value.kind == .array &&
        hasKeyPath source (next :: rest) entry.value

/-- A test holds of some entry that is read just when it holds of an attempt. -/
theorem any_attempt {attempts : List (Except KeyError Entry)} {test : Entry → Bool} :
    (attempts.any fun attempt => attempt.toOption.any test) = true ↔
      ∃ entry, .ok entry ∈ attempts ∧ test entry = true := by
  rw [List.any_eq_true]
  constructor
  · rintro ⟨_ | entry, member, passes⟩
    · cases passes
    · exact ⟨entry, member, passes⟩
  · rintro ⟨entry, member, passes⟩
    exact ⟨.ok entry, member, passes⟩

theorem keyPath_filled {path : List Text} (leads : KeyPath source array path) : path ≠ [] := by
  cases leads <;> exact List.cons_ne_nil _ _

/-- The test finds a path just when it leads to an entry. -/
theorem hasKeyPath_iff {path : List Text} :
    hasKeyPath source path array = true ↔ KeyPath source array path := by
  fun_induction hasKeyPath source path array with
  | case1 array => simpa using fun leads => keyPath_filled leads rfl
  | case2 array key =>
      rw [any_attempt]
      constructor
      · rintro ⟨entry, member, is⟩
        obtain rfl := of_decide_eq_true is
        exact .entry member
      · intro leads
        cases leads with
        | entry member => exact ⟨_, member, decide_eq_true rfl⟩
        | inside member nested further => exact absurd rfl (keyPath_filled further)
  | case3 array key next rest inductionHypothesis =>
      simp only [any_attempt, Bool.and_eq_true, decide_eq_true_eq, beq_iff_eq, inductionHypothesis]
      constructor
      · rintro ⟨entry, member, ⟨rfl, nested⟩, further⟩
        exact .inside member nested further
      · intro leads
        cases leads with
        | inside member nested further => exact ⟨_, member, ⟨rfl, nested⟩, further⟩

instance (path : List Text) : Decidable (KeyPath source array path) :=
  decidable_of_iff _ hasKeyPath_iff

/-- A key is that of an entry, below a start, or of one inside an array in it. -/
def Entry.Holds (source : List Char) (start : Text) (entry : Entry) (key : Text) : Prop :=
  dotted start entry.key = key ∨ entry.value.kind = .array ∧
    ∃ path, KeyPath source entry.value path ∧ path.foldl dotted (dotted start entry.key) = key

/-- A path begins with an entry of the array. -/
theorem keyPath_holds : (∃ path, KeyPath source array path ∧ path.foldl dotted start = key) ↔
    ∃ entry, .ok entry ∈ entries source array ∧ entry.Holds source start key := by
  constructor
  · rintro ⟨path, leads, is⟩
    cases leads with
    | @entry array entry member => exact ⟨entry, member, .inl is⟩
    | @inside array entry path member nested further =>
        exact ⟨entry, member, .inr ⟨nested, path, further, is⟩⟩
  · rintro ⟨entry, member, is | ⟨nested, path, further, is⟩⟩
    · exact ⟨[entry.key], .entry member, is⟩
    · exact ⟨entry.key :: path, .inside member nested further, is⟩

/-- The value of an entry is smaller than the array around it. -/
theorem entriesFrom_value_size {index : Nat} {elements : List Node} {entry : Entry}
    (inside : ∀ element ∈ elements, element ∈ elementsOf array)
    (member : .ok entry ∈ entriesFrom source index elements) : entry.value.size < array.size := by
  obtain ⟨before, after, split⟩ := List.append_of_mem member
  obtain ⟨front, element, rest, _, last, rfl, -, -, next, here⟩ := reads_of_entriesFrom split
  exact entryAt_value_size (inside element (by simp)) here

/-- So deep all keys of an array are told, and no others. -/
def TellsPaths (source : List Char) (depth : Nat) : Prop :=
  ∀ {array : Node} {start : Text} {keys : List Text}, array.size ≤ depth →
    keysToDepth source depth start array = .ok keys → ∀ key,
      key ∈ keys ↔ ∃ path, KeyPath source array path ∧ path.foldl dotted start = key

/-- The keys that are told for an entry are its own and those of the array in it. -/
theorem TellsPaths.entry (tells : TellsPaths source depth) {entry : Entry} {keys : List Text}
    (smaller : entry.value.size ≤ depth)
    (told : entryKeys source depth start (.ok entry) = .ok keys) :
    key ∈ keys ↔ entry.Holds source start key := by
  by_cases nested : entry.value.kind = .array
  · obtain ⟨inner, below, rfl⟩ : ∃ inner,
        keysToDepth source depth (dotted start entry.key) entry.value = .ok inner ∧
          dotted start entry.key :: inner = keys := by
      cases below : keysToDepth source depth (dotted start entry.key) entry.value with
      | error e => simp [entryKeys, nested, below, bind, Except.bind] at told
      | ok inner =>
          simpa [entryKeys, nested, below, bind, Except.bind, pure, Except.pure] using told
    rw [List.mem_cons, tells smaller below, Entry.Holds, eq_comm]
    simp [nested]
  · have is : [dotted start entry.key] = keys := by
      simpa [entryKeys, nested, bind, Except.bind, pure, Except.pure] using told
    rw [← is, List.mem_singleton, Entry.Holds, eq_comm]
    simp [nested]

/-- At each depth all paths of an array are told. -/
theorem tellsPaths (source : List Char) (depth : Nat) : TellsPaths source depth := by
  induction depth with
  | zero =>
      intro array start keys deep
      exact absurd deep (Nat.not_le_of_lt array.sizePositive)
  | succ depth inductionHypothesis =>
      intro array start keys deep told key
      obtain ⟨groups, all, told⟩ : ∃ groups,
          (entries source array).mapM (entryKeys source depth start) = .ok groups ∧
            groups.flatten = keys := by
        rw [keysToDepth_succ] at told
        cases all : (entries source array).mapM (entryKeys source depth start) with
        | error e => simp [all, Except.map] at told
        | ok groups => simpa [all, Except.map] using told
      rw [← told, mem_mapM_flatten all, keyPath_holds]
      have smaller {entry : Entry} (member : .ok entry ∈ entries source array) :
          entry.value.size ≤ depth := by
        have inside := entriesFrom_value_size (fun _ own => own) member
        omega
      constructor
      · rintro ⟨attempt, member, group, here, within⟩
        cases attempt with
        | error e => cases here
        | ok entry =>
            exact ⟨entry, member, (inductionHypothesis.entry (smaller member) here).mp within⟩
      · rintro ⟨entry, member, holds⟩
        obtain ⟨group, here⟩ := mapM_eq_ok.mp ⟨groups, all⟩ _ member
        exact ⟨.ok entry, member, group, here,
          (inductionHypothesis.entry (smaller member) here).mpr holds⟩

/-- A path without the empty keys in front of other keys. -/
def withoutEmptyFront : List Text → List Text
  | [] :: next :: rest => withoutEmptyFront (next :: rest)
  | path => path

/-- The key that is told for a path. -/
def dottedPath (path : List Text) : Text := Text.join "." (withoutEmptyFront path)

/-- Two keys may be joined before the rest is. -/
theorem join_dotted (separator first second : Text) (rest : List Text) :
    Text.join separator ((first ++ separator ++ second) :: rest) =
      Text.join separator (first :: second :: rest) := by
  cases rest <;> simp [Text.join]

/-- Below a start that is not empty every key follows a dot. -/
theorem foldl_dotted_filled (filled : start ≠ []) (path : List Text) :
    path.foldl dotted start = Text.join "." (start :: path) := by
  induction path generalizing start with
  | nil => rfl
  | cons key rest inductionHypothesis =>
      have step : dotted start key = start ++ "." ++ key := by
        rw [dotted, if_neg (by simpa using filled)]
      rw [List.foldl_cons, step, inductionHypothesis (by simp [filled]), join_dotted]

/-- At the top an empty start is passed over until there is a key that is not empty. -/
theorem foldl_dotted (path : List Text) : path.foldl dotted [] = dottedPath path := by
  induction path with
  | nil => rfl
  | cons key rest inductionHypothesis =>
      have step : dotted [] key = key := rfl
      rw [List.foldl_cons, step]
      cases key with
      | nil =>
          rw [inductionHypothesis]
          cases rest <;> rfl
      | cons c others => exact foldl_dotted_filled (List.cons_ne_nil c others) rest

/-- A key that is told is no longer than its path. -/
theorem withoutEmptyFront_length (path : List Text) :
    (Text.join "." (withoutEmptyFront path)).length ≤ (Text.join "." path).length := by
  fun_induction withoutEmptyFront path with
  | case1 next rest inductionHypothesis =>
      refine inductionHypothesis.trans ?_
      simp [Text.join]
  | case2 path other => exact Nat.le_refl _

/-- A path is told with all its keys exactly if it does not go on behind an empty key in front. -/
theorem dottedPath_eq_join {path : List Text} :
    dottedPath path = Text.join "." path ↔ (path.head? = some [] → path = [[]]) := by
  unfold dottedPath
  match path with
  | [] => simp [withoutEmptyFront]
  | (c :: others) :: rest => simp [withoutEmptyFront]
  | [[]] => simp [withoutEmptyFront]
  | [] :: next :: rest =>
      have shorter := withoutEmptyFront_length (next :: rest)
      have longer : (Text.join "." ([] :: next :: rest)).length =
          (Text.join "." (next :: rest)).length + 1 := by
        simp [Text.join, Text.ofString, Text.ofChars]
      simp only [withoutEmptyFront, List.head?_cons, forall_const, List.cons.injEq, true_and,
        reduceCtorEq, iff_false]
      intro same
      rw [same, longer] at shorter
      omega

end

/-- The keys of the returned array are told once each, for all paths in it. -/
theorem returnedKeys_paths {program : Program} {array : Node} {found : Option (List Text)}
    (returns : program.returnedArray? = some array) (told : program.returnedKeys = .ok found) :
    ∃ keys, found = some keys ∧ keys.Nodup ∧ ∀ key, key ∈ keys ↔
      ∃ path, KeyPath program.source.written array path ∧ dottedPath path = key := by
  simp only [Program.returnedKeys, returns] at told
  obtain ⟨all, below, told⟩ := bind_eq_ok.mp told
  cases told
  refine ⟨Text.unique all, rfl, Text.uniqueNodup all, fun key => ?_⟩
  simp only [Text.uniqueMember, tellsPaths _ _ (Nat.le_refl array.size) below, foldl_dotted]

end Untranslated.Php

namespace Untranslated.Catalog

open Php (KeyPath Node Program dottedPath)

/-- The keys of a file that returns an array are the paths to its entries, joined with dots, each of
them once. Empty keys in front of other keys are lost, so that all paths are joined whole just if
no entry is inside an array under an empty key. -/
theorem codeKeys_paths {text : List Char} {path : Option Text} {program : Program} {array : Node}
    {keys : List Text} {records : List Record} (valid : Php.parse text path = .ok program)
    (returns : program.returnedArray? = some array)
    (told : codeKeys text path = .ok (keys, records)) :
    keys.Nodup ∧
      (∀ key, key ∈ keys ↔ ∃ path, KeyPath text array path ∧ dottedPath path = key) ∧
      ((∀ path, KeyPath text array path → path.head? = some [] → path = [[]]) →
        ∀ key, key ∈ keys ↔ ∃ path, KeyPath text array path ∧ Text.join "." path = key) := by
  obtain ⟨once, paths⟩ : keys.Nodup ∧ ∀ key, key ∈ keys ↔
      ∃ path, KeyPath program.source.written array path ∧ dottedPath path = key := by
    rw [codeKeys, valid] at told
    cases own : program.returnedKeys with
    | error e => simp [own] at told
    | ok found =>
        obtain ⟨all, rfl, facts⟩ := Php.returnedKeys_paths returns own
        simp only [own, Except.ok.injEq, Prod.mk.injEq] at told
        exact told.1 ▸ facts
  rw [Php.parse_written valid] at paths
  refine ⟨once, paths, fun whole key => (paths key).trans ?_⟩
  refine exists_congr fun path => and_congr_right fun leads => ?_
  rw [Php.dottedPath_eq_join.mpr (whole path leads)]

/-- An empty key inside another one is no empty key in front. -/
def nested : List Char :=
  "<?php return ['a' => ['b' => 'x', '' => ['c' => 1]], '' => 'y'];".toList

/-- The key with an empty one inside is told in full. -/
theorem codeKeys_paths_nested :
    ∃ program array keys records, Php.parse nested none = .ok program ∧
      program.returnedArray? = some array ∧ codeKeys nested none = .ok (keys, records) ∧
      KeyPath nested array ["a", "", "c"] ∧
      (∀ path, KeyPath nested array path → path.head? = some [] → path = [[]]) ∧
      Text.ofString "a..c" ∈ keys := by
  have reads : (Php.parse nested none).toOption.map (fun program =>
      program.returnedArray?.map fun array =>
        (decide (KeyPath nested array ["a", "", "c"]),
          (Php.entries nested array).all fun attempt => attempt.toOption.all fun entry =>
            entry.key ≠ [] || entry.value.kind != .array)) = some (some (true, true)) := by
    decide +kernel
  have tells : (codeKeys nested none).toOption.isSome = true := by decide +kernel
  obtain ⟨program, valid, reads⟩ := ok_of_toOption reads
  obtain ⟨array, returns, facts⟩ := Option.map_eq_some_iff.mp reads
  obtain ⟨leads, shallow⟩ := Prod.mk.inj facts
  obtain ⟨⟨keys, records⟩, told⟩ : ∃ keys, codeKeys nested none = .ok keys := by
    cases told : codeKeys nested none with
    | error e => simp [told, Except.toOption] at tells
    | ok keys => exact ⟨keys, rfl⟩
  have whole : ∀ path, KeyPath nested array path → path.head? = some [] → path = [[]] := by
    intro path leads front
    cases leads with
    | entry member => simpa using front
    | inside member isArray further =>
        have own := List.all_eq_true.mp shallow _ member
        simp_all [Except.toOption]
  refine ⟨program, array, keys, records, valid, returns, told, of_decide_eq_true leads, whole, ?_⟩
  obtain ⟨-, -, joined⟩ := codeKeys_paths valid returns told
  exact (joined whole _).mpr ⟨["a", "", "c"], of_decide_eq_true leads, by decide⟩

/-- An array inside an empty key. -/
def underEmpty : List Char := "<?php return ['' => ['a' => 1]];".toList

/-- The path through the empty key is told without its dot. -/
theorem codeKeys_paths_underEmpty :
    ∃ program array keys records, Php.parse underEmpty none = .ok program ∧
      program.returnedArray? = some array ∧ codeKeys underEmpty none = .ok (keys, records) ∧
      KeyPath underEmpty array ["", "a"] ∧ keys = [Text.ofString "", Text.ofString "a"] ∧
      Text.join "." ["", "a"] ∉ keys := by
  have reads : (Php.parse underEmpty none).toOption.map (fun program =>
      program.returnedArray?.map fun array =>
        decide (KeyPath underEmpty array ["", "a"])) = some (some true) := by
    decide +kernel
  have tells : (codeKeys underEmpty none).toOption.map (·.1) =
      some [Text.ofString "", Text.ofString "a"] := by
    decide +kernel
  obtain ⟨program, valid, reads⟩ := ok_of_toOption reads
  obtain ⟨array, returns, leads⟩ := Option.map_eq_some_iff.mp reads
  obtain ⟨⟨keys, records⟩, told, rfl⟩ := ok_of_toOption tells
  exact ⟨program, array, _, records, valid, returns, told, of_decide_eq_true leads, rfl,
    by decide⟩

end Untranslated.Catalog
