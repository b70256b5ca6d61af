/-
This file tells which arrays have a key that cannot be read, and which fault comes first.
-/

import Untranslated.Php.ReturnedArray
import Untranslated.Proofs.Php.Escapes
import Mathlib.Data.Nat.Digits.Defs

namespace Untranslated.Php

open Literal (FailsIn value? value?_eq_error)
open Text (decimal? decimalValue? isDigitLike)

/-- A key looks like a number and cannot be counted on from. It is too long, or a numeral in it is
no decimal digit. -/
structure Uncountable (key : Text) : Prop where
  filled : key ≠ []
  numerals : ∀ c ∈ key, isDigitLike c = true
  refused : numeralLimit < key.length ∨ ∃ c ∈ key, decimalValue? c = none

/-- A key is no number just when a numeral in it is no decimal digit. -/
theorem decimal?_eq_none {t : Text} : decimal? t = none ↔ ∃ c ∈ t, decimalValue? c = none := by
  have from_ (sum : Option Nat) : t.foldl (fun sum c => sum.bind fun n =>
      (decimalValue? c).map (10 * n + ·)) sum = none ↔
        sum = none ∨ ∃ c ∈ t, decimalValue? c = none := by
    induction t generalizing sum with
    | nil => simp
    | cons c rest inductionHypothesis =>
        rw [List.foldl_cons, inductionHypothesis]
        cases sum with
        | none => simp
        | some n => simp [or_and_right, exists_or]
  rw [decimal?, from_]
  simp

section

variable {source : List Char} {index : Nat}

/-- Counting on fails just behind a key that looks like a number and is none. -/
theorem indexAfter_eq_error {key : Text} {e : KeyError} :
    indexAfter index key = .error e ↔ e = .numeral ∧ Uncountable key := by
  unfold indexAfter
  by_cases numeric : key.isEmpty || !key.all isDigitLike
  · rw [if_pos numeric]
    simp only [reduceCtorEq, false_iff, not_and]
    rintro - ⟨filled, numerals, -⟩
    simp only [Bool.or_eq_true, List.isEmpty_iff, filled, false_or, Bool.not_eq_true',
      List.all_eq_false] at numeric
    obtain ⟨c, member, other⟩ := numeric
    exact other (numerals c member)
  · rw [if_neg numeric]
    simp only [Bool.or_eq_true, List.isEmpty_iff, Bool.not_eq_true', not_or, Bool.not_eq_false,
      List.all_eq_true] at numeric
    have uncountable : Uncountable key ↔ numeralLimit < key.length ∨ decimal? key = none := by
      rw [decimal?_eq_none]
      exact ⟨fun own => own.refused, fun refused => ⟨numeric.1, numeric.2, refused⟩⟩
    rw [uncountable]
    by_cases long : numeralLimit < key.length
    · simp [long, eq_comm]
    · rw [if_neg long]
      cases decimal? key with
      | none => simp [eq_comm]
      | some n => simp [long]

/-- An index is no key just when it has too many digits. -/
theorem indexKey_eq_error {e : KeyError} :
    indexKey index = .error e ↔ e = .numeral ∧ 10 ^ numeralLimit ≤ index := by
  have length : (Text.ofNat index).length = (Nat.toDigits 10 index).length := by
    simp [Text.ofNat, Text.ofString, Text.ofChars]
  have long : numeralLimit < (Text.ofNat index).length ↔ 10 ^ numeralLimit ≤ index := by
    rw [length, ← not_le, Nat.length_toDigits_le_iff (by decide) (by decide), not_lt]
  simp only [indexKey]
  rw [← long]
  split
  · next is => simp [is, eq_comm]
  · next is => simp [is]

/-- An element has a key that cannot be read where it comes at this index. -/
inductive UnreadableKey (source : List Char) (index : Nat) (element : Node) : KeyError → Prop where
  | escape {written value : Node} {e : Literal.EscapeError}
      (parts : element.parts = [written, value]) (noInteger : written.kind ≠ .integer)
      (fails : FailsIn source written e) :
      UnreadableKey source index element (.escape e)
  | numeral {written value : Node} {key : Text} (parts : element.parts = [written, value])
      (told : writtenKey? source written = .ok (some key)) (uncountable : Uncountable key) :
      UnreadableKey source index element .numeral
  | position {value : Node} (parts : element.parts = [value]) (own : value.kind ≠ .spread)
      (great : 10 ^ numeralLimit ≤ index) : UnreadableKey source index element .numeral

/-- A written key fails just for an oversized escape. -/
theorem writtenKey?_eq_error {written : Node} {e : KeyError} :
    writtenKey? source written = .error e ↔
      written.kind ≠ .integer ∧ ∃ own, e = .escape own ∧ FailsIn source written own := by
  unfold writtenKey?
  by_cases integer : written.kind = .integer
  · simp [integer]
  · rw [if_neg (by simpa using integer)]
    cases value : value? source written with
    | ok key =>
        have sound (own : Literal.EscapeError) : ¬ FailsIn source written own := by
          rw [← value?_eq_error, value]
          simp
        simp [sound]
    | error own =>
        have only (other : Literal.EscapeError) : FailsIn source written other ↔ own = other := by
          rw [← value?_eq_error, value, Except.error.injEq]
        simp [integer, only, eq_comm]

/-- An element fails just when its key cannot be read. -/
theorem entryAt_eq_error {element : Node} {e : KeyError} :
    entryAt source index element = .error e ↔ UnreadableKey source index element e := by
  constructor
  · intro failed
    unfold entryAt at failed
    split at failed
    · next written value parts =>
      rcases bind_eq_error.mp failed with failed | ⟨key, told, failed⟩
      · obtain ⟨noInteger, own, rfl, fails⟩ := writtenKey?_eq_error.mp failed
        exact .escape parts noInteger fails
      · cases key with
        | none => cases failed
        | some key =>
            rcases bind_eq_error.mp failed with failed | ⟨next, -, failed⟩
            · obtain ⟨rfl, uncountable⟩ := indexAfter_eq_error.mp failed
              exact .numeral parts told uncountable
            · cases failed
    · next value parts =>
      split at failed
      · cases failed
      · next own =>
        rcases bind_eq_error.mp failed with failed | ⟨key, -, failed⟩
        · obtain ⟨rfl, great⟩ := indexKey_eq_error.mp failed
          exact .position parts (by simpa using own) great
        · cases failed
    · cases failed
  · rintro (⟨parts, noInteger, fails⟩ | ⟨parts, told, uncountable⟩ | ⟨parts, own, great⟩)
    · have told := writtenKey?_eq_error.mpr ⟨noInteger, _, rfl, fails⟩
      simp [entryAt, parts, told, bind, Except.bind]
    · have refused : indexAfter index _ = .error .numeral :=
        indexAfter_eq_error.mpr ⟨rfl, uncountable⟩
      simp [entryAt, parts, told, refused, bind, Except.bind]
    · have refused : indexKey index = .error .numeral := indexKey_eq_error.mpr ⟨rfl, great⟩
      simp [entryAt, parts, own, refused, bind, Except.bind]

/-- Elements are read one after the other, from one index to another, and give these entries. -/
inductive Reads (source : List Char) : Nat → List Node → List Entry → Nat → Prop where
  | done (index : Nat) : Reads source index [] [] index
  | passed {index next last : Nat} {element : Node} {rest : List Node} {entries : List Entry}
      (here : entryAt source index element = .ok (next, none))
      (later : Reads source next rest entries last) :
      Reads source index (element :: rest) entries last
  | told {index next last : Nat} {element : Node} {rest : List Node} {entry : Entry}
      {entries : List Entry} (here : entryAt source index element = .ok (next, some entry))
      (later : Reads source next rest entries last) :
      Reads source index (element :: rest) (entry :: entries) last

/-- Behind elements that are read the others are read from the last index on. -/
theorem entriesFrom_reads {elements : List Node} {entries : List Entry} {last : Nat}
    (reads : Reads source index elements entries last) (rest : List Node) :
    entriesFrom source index (elements ++ rest) =
      entries.map .ok ++ entriesFrom source last rest := by
  induction reads with
  | done index => rfl
  | passed here later inductionHypothesis =>
      rw [List.cons_append, entriesFrom, here]
      exact inductionHypothesis
  | told here later inductionHypothesis =>
      rw [List.cons_append, entriesFrom, here]
      exact congrArg (_ :: ·) inductionHypothesis

/-- What an element gives at an index, an entry or a fault. -/
def Yields (source : List Char) (index : Nat) (element : Node) : Except KeyError Entry → Prop
  | .ok entry => ∃ next, entryAt source index element = .ok (next, some entry)
  | .error e => UnreadableKey source index element e

/-- The first element gives the first attempt. -/
theorem entriesFrom_yields {element : Node} {attempt : Except KeyError Entry}
    (yields : Yields source index element attempt) (rest : List Node) :
    ∃ later, entriesFrom source index (element :: rest) = attempt :: later := by
  rw [entriesFrom]
  cases attempt with
  | error e => exact ⟨[], by rw [entryAt_eq_error.mpr yields]⟩
  | ok entry =>
      obtain ⟨next, here⟩ := yields
      exact ⟨entriesFrom source next rest, by rw [here]⟩

/-- Where an entry or a fault comes, all elements before it are read. -/
theorem reads_of_entriesFrom {elements : List Node} {before after : List (Except KeyError Entry)}
    {attempt : Except KeyError Entry}
    (split : entriesFrom source index elements = before ++ attempt :: after) :
    ∃ front element rest entries last, elements = front ++ element :: rest ∧
      before = entries.map .ok ∧ Reads source index front entries last ∧
      Yields source last element attempt := by
  induction elements generalizing index before with
  | nil => simp [entriesFrom] at split
  | cons element rest inductionHypothesis =>
      rw [entriesFrom] at split
      cases here : entryAt source index element with
      | error e =>
          rw [here] at split
          obtain ⟨rfl, rfl⟩ : before = [] ∧ attempt = .error e := by
            cases before <;> simp_all
          exact ⟨[], element, rest, [], index, rfl, rfl, .done index, entryAt_eq_error.mp here⟩
      | ok found =>
          obtain ⟨next, entry⟩ := found
          rw [here] at split
          cases entry with
          | none =>
              obtain ⟨front, own, later, entries, last, rfl, rfl, reads, yields⟩ :=
                inductionHypothesis split
              exact ⟨element :: front, own, later, entries, last, rfl, rfl, .passed here reads,
                yields⟩
          | some entry =>
              cases before with
              | nil =>
                  obtain ⟨rfl, -⟩ := List.cons.inj split
                  exact ⟨[], element, rest, [], index, rfl, rfl, .done index, next, here⟩
              | cons first before =>
                  obtain ⟨rfl, inRest⟩ := List.cons.inj split
                  obtain ⟨front, own, later, entries, last, rfl, rfl, reads, yields⟩ :=
                    inductionHypothesis inRest
                  exact ⟨element :: front, own, later, entry :: entries, last, rfl, rfl,
                    .told here reads, yields⟩

/-- Elements without a fault are all read. -/
theorem reads_of_sound {elements : List Node}
    (sound : ∀ attempt ∈ entriesFrom source index elements, ∃ entry, attempt = .ok entry) :
    ∃ entries last, Reads source index elements entries last := by
  induction elements generalizing index with
  | nil => exact ⟨[], index, .done index⟩
  | cons element rest inductionHypothesis =>
      rw [entriesFrom] at sound
      cases here : entryAt source index element with
      | error e =>
          rw [here] at sound
          obtain ⟨entry, other⟩ := sound _ List.mem_cons_self
          cases other
      | ok found =>
          obtain ⟨next, entry⟩ := found
          rw [here] at sound
          cases entry with
          | none =>
              obtain ⟨entries, last, reads⟩ := inductionHypothesis sound
              exact ⟨entries, last, .passed here reads⟩
          | some entry =>
              obtain ⟨entries, last, reads⟩ :=
                inductionHypothesis (List.forall_mem_cons.mp sound).2
              exact ⟨entry :: entries, last, .told here reads⟩

/-- All keys of an array can be read, and so can those of the arrays in it. -/
inductive Readable (source : List Char) : Node → Prop where
  | mk {array : Node} {entries : List Entry} {last : Nat}
      (reads : Reads source 0 (elementsOf array) entries last)
      (nested : ∀ entry ∈ entries, entry.value.kind = .array → Readable source entry.value) :
      Readable source array

/-- An array fails for the first key that cannot be read. The arrays in it come in their turn. -/
inductive FirstUnreadable (source : List Char) : Node → KeyError → Prop where
  | key {array element : Node} {front rest : List Node} {entries : List Entry} {last : Nat}
      {e : KeyError} (elements : elementsOf array = front ++ element :: rest)
      (reads : Reads source 0 front entries last)
      (nested : ∀ entry ∈ entries, entry.value.kind = .array → Readable source entry.value)
      (unreadable : UnreadableKey source last element e) : FirstUnreadable source array e
  | inside {array element : Node} {front rest : List Node} {entries : List Entry} {last next : Nat}
      {entry : Entry} {e : KeyError} (elements : elementsOf array = front ++ element :: rest)
      (reads : Reads source 0 front entries last)
      (nested : ∀ entry ∈ entries, entry.value.kind = .array → Readable source entry.value)
      (here : entryAt source last element = .ok (next, some entry))
      (isArray : entry.value.kind = .array) (fails : FirstUnreadable source entry.value e) :
      FirstUnreadable source array e

/-- The value of an entry is smaller than the array that the entry is of. -/
theorem entryAt_value_size {array element : Node} {entry : Entry} {next : Nat}
    (member : element ∈ elementsOf array)
    (here : entryAt source index element = .ok (next, some entry)) :
    entry.value.size < array.size := by
  have smaller : element.size < array.size := Node.sizeOfNamed (List.mem_filter.mp member).1
  have part {value : Node} (inside : value ∈ element.parts) : value.size < array.size :=
    (Node.sizeOfPart inside).trans smaller
  unfold entryAt at here
  split at here
  · next written value parts =>
    obtain ⟨key, -, here⟩ := bind_eq_ok.mp here
    cases key with
    | none => cases here
    | some key =>
        obtain ⟨n, -, here⟩ := bind_eq_ok.mp here
        cases here
        exact part (by simp [parts])
  · next value parts =>
    split at here
    · cases here
    · obtain ⟨key, -, here⟩ := bind_eq_ok.mp here
      cases here
      exact part (by simp [parts])
  · cases here

/-- The values of an array are smaller than the array. -/
theorem Reads.value_size {array : Node} {elements : List Node} {entries : List Entry} {last : Nat}
    (reads : Reads source index elements entries last)
    (inside : ∀ element ∈ elements, element ∈ elementsOf array) :
    ∀ entry ∈ entries, entry.value.size < array.size := by
  induction reads with
  | done index => simp
  | passed here later inductionHypothesis =>
      exact inductionHypothesis (List.forall_mem_cons.mp inside).2
  | told here later inductionHypothesis =>
      obtain ⟨first, others⟩ := List.forall_mem_cons.mp inside
      exact List.forall_mem_cons.mpr ⟨entryAt_value_size first here, inductionHypothesis others⟩

/-- The keys of an entry, with those of an array in it. -/
def entryKeys (source : List Char) (depth : Nat) (start : Text)
    (attempt : Except KeyError Entry) : Except KeyError (List Text) := do
  let entry ← attempt
  let key := dotted start entry.key
  if entry.value.kind == .array then
    return key :: (← keysToDepth source depth key entry.value)
  else return [key]

/-- The keys of an array are those of its entries. -/
theorem keysToDepth_succ (source : List Char) (depth : Nat) (start : Text) (array : Node) :
    keysToDepth source (depth + 1) start array =
      ((entries source array).mapM (entryKeys source depth start)).map List.flatten := by
  change (do
    let groups ← (entries source array).mapM (entryKeys source depth start)
    return groups.flatten) = _
  cases (entries source array).mapM (entryKeys source depth start) <;> rfl

variable {depth : Nat} {start : Text}

/-- The keys of an entry fail with the entry, or with an array in it. -/
theorem entryKeys_eq_error {attempt : Except KeyError Entry} {e : KeyError} :
    entryKeys source depth start attempt = .error e ↔ attempt = .error e ∨ ∃ entry,
      attempt = .ok entry ∧ entry.value.kind = .array ∧
        keysToDepth source depth (dotted start entry.key) entry.value = .error e := by
  cases attempt with
  | error own => simp [entryKeys, bind, Except.bind]
  | ok entry =>
      by_cases isArray : entry.value.kind = .array
      · cases keys : keysToDepth source depth (dotted start entry.key) entry.value <;>
          simp [entryKeys, isArray, keys, bind, Except.bind, pure, Except.pure]
      · simp [entryKeys, isArray, bind, Except.bind, pure, Except.pure]

/-- The keys of an entry can be read if those of an array in it can. -/
theorem entryKeys_eq_ok {entry : Entry} :
    (∃ keys, entryKeys source depth start (.ok entry) = .ok keys) ↔
      (entry.value.kind = .array →
        ∃ keys, keysToDepth source depth (dotted start entry.key) entry.value = .ok keys) := by
  by_cases isArray : entry.value.kind = .array
  · cases keys : keysToDepth source depth (dotted start entry.key) entry.value <;>
      simp [entryKeys, isArray, keys, bind, Except.bind, pure, Except.pure]
  · simp [entryKeys, isArray, bind, Except.bind, pure, Except.pure]

/-- So deep all keys of an array are reached. -/
structure DeepEnough (source : List Char) (depth : Nat) : Prop where
  readable : ∀ {start : Text} {array : Node}, array.size ≤ depth →
    ((∃ keys, keysToDepth source depth start array = .ok keys) ↔ Readable source array)
  unreadable : ∀ {start : Text} {array : Node} {e : KeyError}, array.size ≤ depth →
    (keysToDepth source depth start array = .error e ↔ FirstUnreadable source array e)

/-- The entries in a row are sound if the arrays in them are readable, and only then. -/
theorem DeepEnough.sound_iff (deep : DeepEnough source depth) {entries : List Entry}
    (smaller : ∀ entry ∈ entries, entry.value.size ≤ depth) :
    (∀ attempt ∈ entries.map Except.ok, ∃ keys, entryKeys source depth start attempt = .ok keys) ↔
      ∀ entry ∈ entries, entry.value.kind = .array → Readable source entry.value := by
  simp only [List.mem_map, forall_exists_index, and_imp, forall_apply_eq_imp_iff₂]
  refine forall₂_congr fun entry member => entryKeys_eq_ok.trans ?_
  exact imp_congr_right fun _ => deep.readable (smaller entry member)

/-- Elements that are read give the entries of the array. -/
theorem entries_of_reads {array : Node} {entries : List Entry} {last : Nat}
    (reads : Reads source 0 (elementsOf array) entries last) :
    Php.entries source array = entries.map .ok := by
  have all := entriesFrom_reads reads []
  rwa [List.append_nil, entriesFrom, List.append_nil] at all

/-- One level deeper the keys of a larger array are reached. -/
theorem DeepEnough.readable_succ (deep : DeepEnough source depth) {array : Node}
    (bounded : array.size ≤ depth + 1) :
    (∃ keys, keysToDepth source (depth + 1) start array = .ok keys) ↔ Readable source array := by
  have smaller {entries : List Entry} {last : Nat}
      (reads : Reads source 0 (elementsOf array) entries last) :
      ∀ entry ∈ entries, entry.value.size ≤ depth := fun entry member => by
    have inside := reads.value_size (fun _ own => own) entry member
    omega
  rw [keysToDepth_succ, map_eq_ok, mapM_eq_ok]
  constructor
  · intro sound
    have noFault : ∀ attempt ∈ entries source array, ∃ entry, attempt = .ok entry := by
      intro attempt member
      obtain ⟨keys, success⟩ := sound attempt member
      cases attempt with
      | ok entry => exact ⟨entry, rfl⟩
      | error e =>
          rw [entryKeys_eq_error.mpr (.inl rfl)] at success
          cases success
    obtain ⟨entries, last, reads⟩ := reads_of_sound noFault
    rw [entries_of_reads reads, deep.sound_iff (smaller reads)] at sound
    exact .mk reads sound
  · rintro ⟨reads, nested⟩
    rwa [entries_of_reads reads, deep.sound_iff (smaller reads)]

/-- One level deeper the first unreadable key of a larger array is reached. -/
theorem DeepEnough.unreadable_succ (deep : DeepEnough source depth) {array : Node} {e : KeyError}
    (bounded : array.size ≤ depth + 1) :
    keysToDepth source (depth + 1) start array = .error e ↔ FirstUnreadable source array e := by
  have smaller {front rest : List Node} {element : Node} {entries : List Entry} {last : Nat}
      (elements : elementsOf array = front ++ element :: rest)
      (reads : Reads source 0 front entries last) :
      ∀ entry ∈ entries, entry.value.size ≤ depth := fun entry member => by
    have inFront : ∀ own ∈ front, own ∈ elementsOf array := by
      rw [elements]
      exact fun own => List.mem_append_left _
    have inside := reads.value_size inFront entry member
    omega
  have valueSmaller {front rest : List Node} {element : Node} {entry : Entry} {last next : Nat}
      (elements : elementsOf array = front ++ element :: rest)
      (here : entryAt source last element = .ok (next, some entry)) : entry.value.size ≤ depth := by
    have member : element ∈ elementsOf array := by simp [elements]
    have inside := entryAt_value_size member here
    omega
  rw [keysToDepth_succ, map_eq_error, mapM_eq_error]
  constructor
  · rintro ⟨before, attempt, after, split, sound, failed⟩
    obtain ⟨front, element, rest, entries, last, elements, rfl, reads, yields⟩ :=
      reads_of_entriesFrom split
    have nested := (deep.sound_iff (smaller elements reads)).mp sound
    rcases entryKeys_eq_error.mp failed with rfl | ⟨entry, rfl, isArray, failed⟩
    · exact .key elements reads nested yields
    · obtain ⟨next, here⟩ := yields
      exact .inside elements reads nested here isArray
        ((deep.unreadable (valueSmaller elements here)).mp failed)
  · -- Either way the attempt at the element is the first that fails.
    have failsFirst {front rest : List Node} {element : Node} {entries : List Entry} {last : Nat}
        (attempt : Except KeyError Entry) (elements : elementsOf array = front ++ element :: rest)
        (reads : Reads source 0 front entries last)
        (nested : ∀ entry ∈ entries, entry.value.kind = .array → Readable source entry.value)
        (yields : Yields source last element attempt)
        (failed : entryKeys source depth start attempt = .error e) :
        FailsFirst (entryKeys source depth start) (Php.entries source array) e := by
      obtain ⟨later, split⟩ := entriesFrom_yields yields rest
      refine ⟨entries.map .ok, attempt, later, ?_,
        (deep.sound_iff (smaller elements reads)).mpr nested, failed⟩
      rw [Php.entries, elements, entriesFrom_reads reads, split]
    rintro (⟨elements, reads, nested, unreadable⟩ |
      ⟨elements, reads, nested, here, isArray, fails⟩)
    · exact failsFirst (.error e) elements reads nested unreadable
        (entryKeys_eq_error.mpr (.inl rfl))
    · refine failsFirst (.ok _) elements reads nested ⟨_, here⟩ (entryKeys_eq_error.mpr (.inr ?_))
      exact ⟨_, rfl, isArray, (deep.unreadable (valueSmaller elements here)).mpr fails⟩

/-- Every depth is enough for the arrays that are no larger. -/
theorem deepEnough (source : List Char) (depth : Nat) : DeepEnough source depth := by
  induction depth with
  | zero =>
      have none {array : Node} : ¬ array.size ≤ 0 := by
        have positive := array.sizePositive
        omega
      exact ⟨fun bounded => absurd bounded none, fun bounded => absurd bounded none⟩
  | succ depth inductionHypothesis =>
      exact ⟨inductionHypothesis.readable_succ, inductionHypothesis.unreadable_succ⟩

/-- The keys of a returned array cannot be read exactly if one of them is unreadable. -/
theorem returnedKeys_eq_error {program : Program} {e : KeyError} :
    program.returnedKeys = .error e ↔ ∃ array, program.returnedArray? = some array ∧
      FirstUnreadable program.source.written array e := by
  unfold Program.returnedKeys
  cases program.returnedArray? with
  | none => simp
  | some array =>
      have told : keysToDepth program.source.written array.size [] array = .error e ↔
          FirstUnreadable program.source.written array e :=
        (deepEnough program.source.written array.size).unreadable (Nat.le_refl array.size)
      cases keys : keysToDepth program.source.written array.size [] array <;>
        simp [← told, keys, bind, Except.bind, pure, Except.pure]

end

end Untranslated.Php
