/-
This file compares the keys of an array with the keys that PHP assigns.
They differ in the numbers that are not written in plain decimal form, and behind texts that look
like numbers and are none.
-/

import Untranslated.Proofs.Php.Literal.Pieces
import Untranslated.Proofs.Php.UnreadableKeys

namespace Untranslated.Php

open Literal (digitValue? number number_append value?)
open Text (decimal? decimalValue? isDigitLike)

/-- The decimal digits in ASCII. -/
def isDigit (c : CodePoint) : Bool := (digitValue? c).any (· < 10)

/-- A numeral has no zero in front of other digits. -/
def isNumeral : Text → Bool
  | [] => false
  | [c] => isDigit c
  | c :: rest => isDigit c && !c.is '0' && rest.all isDigit

/-- A digit is the character of a number below ten. -/
theorem isDigit_iff {c : CodePoint} :
    isDigit c = true ↔ ∃ d < 10, c = .ofChar (Nat.digitChar d) := by
  constructor
  · intro digit
    obtain ⟨d, value, small⟩ := (Option.any_eq_true _ _).mp digit
    have small := of_decide_eq_true small
    refine ⟨d, small, ?_⟩
    obtain ⟨n, valid⟩ := c
    simp only [digitValue?] at value
    have is : n = d + 48 := by grind
    subst is
    simp only [CodePoint.ofChar, Nat.toNat_digitChar_of_lt_ten small, Nat.add_comm]
  · rintro ⟨d, small, rfl⟩
    revert d
    decide

/-- The character of a digit has its value. -/
theorem digitValue?_digitChar {d : Nat} (small : d < 10) :
    digitValue? (.ofChar (Nat.digitChar d)) = some d := by
  revert d
  decide

/-- The character of a digit is a decimal digit of its value. -/
theorem decimalValue?_digitChar {d : Nat} (small : d < 10) :
    decimalValue? (.ofChar (Nat.digitChar d)) = some d := by
  revert d
  decide

/-- A digit looks like one. -/
theorem isDigitLike_digit {c : CodePoint} (digit : isDigit c = true) : isDigitLike c = true := by
  obtain ⟨d, small, rfl⟩ := isDigit_iff.mp digit
  revert d
  decide

/-- A number with one more digit at its end is ten times as great, and the digit. -/
theorem decimal?_append (t : Text) (c : CodePoint) :
    decimal? (t ++ [c]) =
      (decimal? t).bind fun n => (decimalValue? c).map (10 * n + ·) := by
  rw [decimal?, List.foldl_append]
  rfl

/-- Digits make up their number to base ten. -/
theorem decimal?_digits {t : Text} (digits : t.all isDigit = true) :
    decimal? t = some (number 10 t) := by
  induction t using List.reverseRecOn with
  | nil => rfl
  | append_singleton t c inductionHypothesis =>
      simp only [List.all_append, Bool.and_eq_true, List.all_cons, List.all_nil, Bool.and_true]
        at digits
      obtain ⟨d, small, rfl⟩ := isDigit_iff.mp digits.2
      rw [decimal?_append, inductionHypothesis digits.1, number_append,
        digitValue?_digitChar small, decimalValue?_digitChar small]
      rfl

/-- A numeral is made of digits. -/
theorem isNumeral_all {t : Text} (numeral : isNumeral t = true) : t.all isDigit = true := by
  match t with
  | [] => rfl
  | [c] => simpa [isNumeral] using numeral
  | c :: next :: rest =>
      simp only [isNumeral, Bool.and_eq_true] at numeral
      simpa using ⟨numeral.1.1, by simpa using numeral.2⟩

/-- A number below ten is shown by one digit. -/
theorem ofNat_small {d : Nat} (small : d < 10) :
    Text.ofNat d = [.ofChar (Nat.digitChar d)] := by
  revert d
  decide

/-- The last digit of a number is shown at the end. -/
theorem ofNat_append {n d : Nat} (positive : 0 < n) (small : d < 10) :
    Text.ofNat (10 * n + d) = Text.ofNat n ++ [.ofChar (Nat.digitChar d)] := by
  have digits := Nat.toDigits_append_toDigits (by decide : 1 < 10) positive small
  rw [Nat.toDigits_of_lt_base small] at digits
  simp [Text.ofNat, Text.ofString, Text.ofChars, ← digits]

/-- Different numbers are shown differently. -/
theorem ofNat_injective {m n : Nat} (same : Text.ofNat m = Text.ofNat n) : m = n := by
  have digits : Nat.toDigits 10 m = Nat.toDigits 10 n := by
    have chars := (List.map_inj_right fun _ _ => CodePoint.ofCharInjective).mp same
    simpa using chars
  rw [← Nat.ofDigitChars_ten_toDigits (n := m), digits, Nat.ofDigitChars_ten_toDigits]

/-- A longer numeral is a numeral other than zero with one more digit. -/
theorem isNumeral_append {t : Text} {c : CodePoint} (filled : t ≠ []) :
    isNumeral (t ++ [c]) = true ↔
      isNumeral t = true ∧ t ≠ Text.ofNat 0 ∧ isDigit c = true := by
  have zero : Text.ofNat 0 = [.ofChar '0'] := rfl
  match t with
  | [a] => simp [isNumeral, zero, ← Literal.is_iff, and_assoc]
  | a :: b :: rest => simp [isNumeral, zero, and_assoc]

/-- A numeral is the decimal form of a number, and every decimal form is a numeral. -/
theorem ofNat_number {t : Text} (numeral : isNumeral t = true) : Text.ofNat (number 10 t) = t := by
  induction t using List.reverseRecOn with
  | nil => cases numeral
  | append_singleton t c inductionHypothesis =>
      by_cases filled : t = []
      · subst filled
        obtain ⟨d, small, rfl⟩ := isDigit_iff.mp (by simpa [isNumeral] using numeral)
        rw [number_append, digitValue?_digitChar small]
        simpa [number] using ofNat_small small
      · obtain ⟨front, nonzero, digit⟩ := (isNumeral_append filled).mp numeral
        obtain ⟨d, small, rfl⟩ := isDigit_iff.mp digit
        have own := inductionHypothesis front
        have positive : 0 < number 10 t := by
          refine Nat.pos_of_ne_zero fun zero => nonzero ?_
          rw [← own, zero]
        rw [number_append, digitValue?_digitChar small, Option.getD_some,
          ofNat_append positive small, own]

/-- A number is shown by a numeral. -/
theorem ofNat_isNumeral (n : Nat) : isNumeral (Text.ofNat n) = true := by
  induction n using Nat.strongRecOn with
  | ind n inductionHypothesis =>
      by_cases small : n < 10
      · rw [ofNat_small small]
        exact isDigit_iff.mpr ⟨n, small, rfl⟩
      · have positive : 0 < n / 10 := by omega
        have last : n % 10 < 10 := Nat.mod_lt n (by decide)
        have front := inductionHypothesis (n / 10) (by omega)
        rw [← Nat.div_add_mod n 10, ofNat_append positive last]
        refine (isNumeral_append ?_).mpr ⟨front, ?_, isDigit_iff.mpr ⟨_, last, rfl⟩⟩
        · rintro empty
          rw [empty] at front
          cases front
        · exact fun zero => absurd (ofNat_injective zero) (Nat.ne_of_gt positive)

/-- A numeral cannot be counted just when it is too long. -/
theorem uncountable_numeral {t : Text} (numeral : isNumeral t = true) :
    Uncountable t ↔ numeralLimit < t.length := by
  have digits := isNumeral_all numeral
  have decimal := decimal?_digits digits
  constructor
  · rintro ⟨-, -, long | noDigit⟩
    · exact long
    · rw [decimal?_eq_none.mpr noDigit] at decimal
      cases decimal
  · intro long
    refine ⟨?_, fun c member => isDigitLike_digit (List.all_eq_true.mp digits c member), .inl long⟩
    rintro rfl
    cases numeral

/-- A key of an array is a number or a text. -/
inductive ArrayKey where
  | integer (n : Int)
  | text (t : Text)
deriving DecidableEq

/-- Numbers are shown in decimal form. -/
def ArrayKey.shown : ArrayKey → Text
  | .integer n => Text.ofInt n
  | .text t => t

/-- The number behind a minus sign. There is no negative zero. -/
def negated? : Text → Option Nat
  | [] => none
  | sign :: digits =>
    if sign.is '-' && isNumeral digits && number 10 digits != 0 then some (number 10 digits)
    else none

/-- A text is a number as a key if it spells one of 64 bits. -/
def keyOfText (t : Text) : ArrayKey :=
  if isNumeral t && number 10 t < 2 ^ 63 then .integer (number 10 t)
  else
    match negated? t with
    | some n => if n ≤ 2 ^ 63 then .integer (-n) else .text t
    | none => .text t

/-- The value of an integer in any of its notations. -/
def integerValue (written : Text) : Nat :=
  match written.filter (!·.is '_') with
  | zero :: letter :: rest =>
    if !zero.is '0' then number 10 (zero :: letter :: rest)
    else if letter.is 'x' || letter.is 'X' then number 16 rest
    else if letter.is 'b' || letter.is 'B' then number 2 rest
    else if letter.is 'o' || letter.is 'O' then number 8 rest
    else number 8 (letter :: rest)
  | digits => number 10 digits

theorem ofInt_natCast (n : Nat) : Text.ofInt n = Text.ofNat n := rfl

/-- A negative number is shown by its sign and its numeral. -/
theorem ofInt_neg {n : Nat} (positive : n ≠ 0) :
    Text.ofInt (-n) = .ofChar '-' :: Text.ofNat n := by
  obtain ⟨m, rfl⟩ := Nat.exists_eq_succ_of_ne_zero positive
  have spelled : Text.ofInt (-(m + 1 : Nat)) = Text.ofString ("-" ++ toString (m + 1)) := rfl
  rw [spelled]
  simp [Text.ofNat, Text.ofString, Text.ofChars]

/-- A text stays what it is as a key, be it a number or not. -/
theorem keyOfText_shown (t : Text) : (keyOfText t).shown = t := by
  unfold keyOfText
  split
  · next is =>
    rw [ArrayKey.shown, ofInt_natCast, ofNat_number (Bool.and_eq_true_iff.mp is).1]
  · split
    · next n negated =>
      split
      · match t with
        | [] => cases negated
        | sign :: digits =>
            simp only [negated?] at negated
            split at negated
            · next is =>
              cases negated
              simp only [Bool.and_eq_true, bne_iff_ne] at is
              rw [ArrayKey.shown, ofInt_neg is.2, ofNat_number is.1.2, Literal.is_iff.mp is.1.1]
            · cases negated
      · rfl
    · rfl

/-- A numeral in a file has its value to base ten. -/
theorem integerValue_numeral {t : Text} (numeral : isNumeral t = true) :
    integerValue t = number 10 t := by
  have plain : t.filter (!·.is '_') = t := by
    refine List.filter_eq_self.mpr fun c member => ?_
    have digit := List.all_eq_true.mp (isNumeral_all numeral) c member
    rw [Literal.is_other digit (by decide)]
    rfl
  rw [integerValue, plain]
  rcases t with _ | ⟨zero, _ | ⟨letter, rest⟩⟩
  · rfl
  · rfl
  · simp only [isNumeral, Bool.and_eq_true] at numeral
    simp only [numeral.1.2, if_true]

/-- Of the notations of a number only the plain decimal one is what is shown of it. -/
theorem shown_integerValue {written : Text} :
    (ArrayKey.integer (integerValue written)).shown = written ↔ isNumeral written = true := by
  rw [ArrayKey.shown, ofInt_natCast]
  constructor
  · intro same
    rw [← same]
    exact ofNat_isNumeral _
  · intro numeral
    rw [integerValue_numeral numeral, ofNat_number numeral]

/-- The index behind some numbers, the first one if there are none. -/
def indexBehind (numbers : List Nat) : Nat := numbers.foldl (fun index n => max index (n + 1)) 0

/-- One more number moves the index behind it. -/
theorem indexBehind_append (numbers : List Nat) (n : Nat) :
    indexBehind (numbers ++ [n]) = max (indexBehind numbers) (n + 1) := by
  simp [indexBehind]

/-- An index is far enough just when it is behind all numbers. -/
theorem indexBehind_le {numbers : List Nat} {index : Nat} :
    indexBehind numbers ≤ index ↔ ∀ n ∈ numbers, n < index := by
  induction numbers using List.reverseRecOn with
  | nil => simp [indexBehind]
  | append_singleton numbers n inductionHypothesis =>
      rw [indexBehind_append, Nat.max_le, inductionHypothesis]
      simp only [List.mem_append, List.mem_singleton, or_imp, forall_and, forall_eq]
      exact and_congr_right fun _ => Nat.succ_le_iff.symm

/-- The number of a key that later positions follow. -/
def ArrayKey.natural? : ArrayKey → Option Nat
  | .integer (.ofNat n) => some n
  | _ => none

/-- The number that a text looks like although it is none as a key. -/
def ArrayKey.stray? : ArrayKey → Option Nat
  | .integer _ => none
  | .text t => if t.isEmpty || !t.all isDigitLike then none else decimal? t

/-- PHP puts an element without a key behind all numbers so far. -/
def nextIndex (keys : List ArrayKey) : Nat := indexBehind (keys.filterMap ArrayKey.natural?)

/-- The texts that look like numbers are counted too. -/
def countedIndex (keys : List ArrayKey) : Nat :=
  indexBehind (keys.filterMap fun key => key.natural?.or key.stray?)

/-- One more key moves the counted index if it looks like a number. -/
theorem countedIndex_append (keys : List ArrayKey) (key : ArrayKey) :
    countedIndex (keys ++ [key]) =
      ((key.natural?.or key.stray?).elim (countedIndex keys) fun n =>
        max (countedIndex keys) (n + 1)) := by
  rw [countedIndex, List.filterMap_append]
  cases counted : key.natural?.or key.stray? with
  | none => simp [counted, countedIndex]
  | some n => simp [counted, countedIndex, indexBehind_append]

/-- No text that is counted by mistake reaches the next index. -/
def NoStray (keys : List ArrayKey) : Prop :=
  ∀ n ∈ keys.filterMap ArrayKey.stray?, n < nextIndex keys

/-- A key is counted if it is a number or looks like one. -/
theorem ArrayKey.counted_iff {key : ArrayKey} {n : Nat} :
    key.natural?.or key.stray? = some n ↔ key.natural? = some n ∨ key.stray? = some n := by
  cases key with
  | integer m => simp [ArrayKey.stray?]
  | text t => simp [ArrayKey.natural?]

/-- The counted index is behind the numbers and behind the texts that look like numbers. -/
theorem countedIndex_le {keys : List ArrayKey} {index : Nat} :
    countedIndex keys ≤ index ↔
      nextIndex keys ≤ index ∧ ∀ n ∈ keys.filterMap ArrayKey.stray?, n < index := by
  simp only [countedIndex, nextIndex, indexBehind_le, List.mem_filterMap, ArrayKey.counted_iff,
    and_or_left, exists_or, or_imp, forall_and]

/-- Counting texts changes the index just when one of them reaches it. -/
theorem countedIndex_eq {keys : List ArrayKey} :
    countedIndex keys = nextIndex keys ↔ NoStray keys := by
  have least := (countedIndex_le.mp (Nat.le_refl (countedIndex keys))).1
  constructor
  · intro same
    exact (countedIndex_le.mp (Nat.le_of_eq same)).2
  · intro noStray
    exact Nat.le_antisymm (countedIndex_le.mpr ⟨Nat.le_refl _, noStray⟩) least

/-- How the key of an element is written, if it has one. -/
inductive ItemKey where
  | position
  | text (t : Text)
  | integer (written : Text)

/-- A static element of an array. -/
structure Item where
  key : ItemKey
  value : Node

/-- An element without a key, or one with a static text or an integer for its key. -/
def item? (source : List Char) (element : Node) : Option Item :=
  match element.parts with
  | [value] => if value.kind == .spread then none else some ⟨.position, value⟩
  | [written, value] =>
    if written.kind == .integer then some ⟨.integer (written.text source), value⟩
    else
      match value? source written with
      | .ok (some t) => some ⟨.text t, value⟩
      | _ => none
  | _ => none

/-- The key that PHP assigns behind other keys. -/
def assigned (keys : List ArrayKey) : ItemKey → ArrayKey
  | .position => .integer (nextIndex keys)
  | .text t => keyOfText t
  | .integer written => .integer (integerValue written)

/-- The entries with the keys that PHP assigns, in the order of the items. -/
def assignedEntries (keys : List ArrayKey) : List Item → List Entry
  | [] => []
  | item :: rest =>
    let key := assigned keys item.key
    ⟨key.shown, item.value⟩ :: assignedEntries (keys ++ [key]) rest

/-- Behind these keys an item is given the key that PHP assigns. -/
def Faithful (keys : List ArrayKey) : ItemKey → Prop
  | .position => NoStray keys ∧ nextIndex keys < 10 ^ numeralLimit
  | .text t => ¬ Uncountable t
  | .integer written => isNumeral written = true ∧ written.length ≤ numeralLimit

/-- So is each item of a list where it comes. -/
def AllFaithful (keys : List ArrayKey) : List Item → Prop
  | [] => True
  | item :: rest =>
    Faithful keys item.key ∧ AllFaithful (keys ++ [assigned keys item.key]) rest

/-- A numeral as a text looks like its number. -/
theorem stray?_numeral {t : Text} (numeral : isNumeral t = true) :
    (ArrayKey.text t).stray? = some (number 10 t) := by
  have digits := isNumeral_all numeral
  have filled : t ≠ [] := by
    rintro rfl
    cases numeral
  have alike : t.all isDigitLike = true :=
    List.all_eq_true.mpr fun c member => isDigitLike_digit (List.all_eq_true.mp digits c member)
  simp [ArrayKey.stray?, filled, alike, decimal?_digits digits]

/-- A text is counted in the same way be it a number as a key or not. -/
theorem keyOfText_counted (t : Text) :
    (keyOfText t).natural?.or (keyOfText t).stray? = (ArrayKey.text t).stray? := by
  unfold keyOfText
  split
  · next is =>
    rw [stray?_numeral (Bool.and_eq_true_iff.mp is).1]
    rfl
  · split
    · next n negated =>
      split
      · match t with
        | [] => cases negated
        | sign :: digits =>
            simp only [negated?] at negated
            split at negated
            · next is =>
              cases negated
              simp only [Bool.and_eq_true, bne_iff_ne] at is
              obtain ⟨m, more⟩ := Nat.exists_eq_succ_of_ne_zero is.2
              rw [more, Literal.is_iff.mp is.1.1]
              rfl
            · cases negated
      · rfl
    · rfl

/-- The index after a key goes behind the number that the key looks like. -/
theorem indexAfter_eq_ok {t : Text} {index next : Nat} :
    indexAfter index t = .ok next ↔ ¬ Uncountable t ∧
      next = (ArrayKey.text t).stray?.elim index fun n => max index (n + 1) := by
  have counts {other : Nat} (told : indexAfter index t = .ok other) :
      other = (ArrayKey.text t).stray?.elim index fun n => max index (n + 1) := by
    have stray : (ArrayKey.text t).stray? =
        if t.isEmpty || !t.all isDigitLike then none else decimal? t := rfl
    rw [stray]
    unfold indexAfter at told
    by_cases numeric : t.isEmpty || !t.all isDigitLike
    · rw [if_pos numeric] at told ⊢
      cases told
      rfl
    · rw [if_neg numeric] at told ⊢
      split at told
      · cases told
      · cases decimal : decimal? t with
        | none => simp [decimal] at told
        | some n => simpa [decimal, eq_comm] using told
  constructor
  · intro told
    refine ⟨fun uncountable => ?_, counts told⟩
    rw [indexAfter_eq_error.mpr ⟨rfl, uncountable⟩] at told
    cases told
  · rintro ⟨countable, rfl⟩
    cases told : indexAfter index t with
    | error e => exact absurd (indexAfter_eq_error.mp told).2 countable
    | ok other => rw [counts told]

/-- An index is a key in decimal form, if it is not too long. -/
theorem indexKey_eq_ok {index : Nat} {key : Text} :
    indexKey index = .ok key ↔ index < 10 ^ numeralLimit ∧ key = Text.ofNat index := by
  have great : indexKey index = .error .numeral ↔ 10 ^ numeralLimit ≤ index :=
    indexKey_eq_error.trans (and_iff_right rfl)
  rw [← Nat.not_le, ← great]
  simp only [indexKey]
  split
  · simp
  · simp [eq_comm]

/-- How the key of an item is read at an index, with the next index. -/
def ItemKey.readAt (index : Nat) : ItemKey → Except KeyError (Nat × Text)
  | .position => (indexKey index).map (index + 1, ·)
  | .text t | .integer t => (indexAfter index t).map (·, t)

/-- An item that is faithful counts like the key that PHP assigns. -/
theorem readAt_faithful {keys : List ArrayKey} {key : ItemKey} (faithful : Faithful keys key) :
    key.readAt (countedIndex keys) =
      .ok (countedIndex (keys ++ [assigned keys key]), (assigned keys key).shown) := by
  rw [countedIndex_append]
  cases key with
  | position =>
      obtain ⟨noStray, small⟩ := faithful
      rw [ItemKey.readAt, countedIndex_eq.mpr noStray, indexKey_eq_ok.mpr ⟨small, rfl⟩]
      simp [assigned, ArrayKey.shown, ArrayKey.natural?, Except.map, ofInt_natCast]
  | text t =>
      rw [ItemKey.readAt, indexAfter_eq_ok.mpr ⟨faithful, rfl⟩, assigned, keyOfText_counted,
        keyOfText_shown]
      rfl
  | integer written =>
      obtain ⟨numeral, short⟩ := faithful
      have countable := (uncountable_numeral numeral).not.mpr (Nat.not_lt_of_le short)
      rw [ItemKey.readAt, indexAfter_eq_ok.mpr ⟨countable, rfl⟩, assigned, stray?_numeral numeral,
        shown_integerValue.mpr numeral, integerValue_numeral numeral]
      rfl

/-- A key that is read as PHP assigns it is given faithfully. -/
theorem faithful_of_readAt {keys : List ArrayKey} {key : ItemKey} {next : Nat}
    (told : key.readAt (countedIndex keys) = .ok (next, (assigned keys key).shown)) :
    Faithful keys key := by
  cases key with
  | position =>
      obtain ⟨shown, own, told⟩ := map_ok_iff.mp told
      obtain ⟨small, rfl⟩ := indexKey_eq_ok.mp own
      have same : countedIndex keys = nextIndex keys := ofNat_injective (Prod.mk.inj told).2
      exact ⟨countedIndex_eq.mp same, same ▸ small⟩
  | text t =>
      obtain ⟨index, own, told⟩ := map_ok_iff.mp told
      exact (indexAfter_eq_ok.mp own).1
  | integer written =>
      obtain ⟨index, own, told⟩ := map_ok_iff.mp told
      have numeral := shown_integerValue.mp (Prod.mk.inj told).2.symm
      have countable := (indexAfter_eq_ok.mp own).1
      exact ⟨numeral, Nat.le_of_not_lt ((uncountable_numeral numeral).not.mp countable)⟩

section

variable {source : List Char} {element : Node} {item : Item} {keys : List ArrayKey}

/-- A static element is read as its item. -/
theorem entryAt_item {index : Nat} (is : item? source element = some item) :
    entryAt source index element =
      (item.key.readAt index).map fun (next, key) => (next, some ⟨key, item.value⟩) := by
  have key {written value : Node} {t : Text} (parts : element.parts = [written, value])
      (told : writtenKey? source written = .ok (some t)) :
      entryAt source index element =
        ((indexAfter index t).map (·, t)).map fun (next, key) => (next, some ⟨key, value⟩) := by
    simp only [entryAt, parts, told]
    cases told : indexAfter index t <;>
      simp [told, bind, Except.bind, Except.map, pure, Except.pure]
  unfold item? at is
  split at is
  · next value parts =>
    split at is
    · cases is
    · next own =>
      cases is
      simp only [entryAt, parts, ItemKey.readAt]
      rw [if_neg own]
      cases indexKey index <;> rfl
  · next written value parts =>
    split at is
    · next integer =>
      cases is
      exact key parts (by rw [writtenKey?, if_pos integer])
    · next other =>
      split at is
      · next t told =>
        cases is
        exact key parts (by rw [writtenKey?, if_neg other, told])
      · cases is
  · cases is

/-- Behind these keys the elements are given the keys that PHP assigns just if all are faithful. -/
theorem entriesFrom_assigned {elements : List Node} {items : List Item}
    (listed : elements.mapM (item? source) = some items) :
    entriesFrom source (countedIndex keys) elements = (assignedEntries keys items).map .ok ↔
      AllFaithful keys items := by
  induction elements generalizing keys items with
  | nil =>
      cases listed
      simp [entriesFrom, assignedEntries, AllFaithful]
  | cons element rest inductionHypothesis =>
      rw [List.mapM_cons] at listed
      obtain ⟨item, is, listed⟩ := Option.bind_eq_some_iff.mp listed
      obtain ⟨others, later, joined⟩ := Option.bind_eq_some_iff.mp listed
      cases joined
      rw [entriesFrom, entryAt_item is, AllFaithful, assignedEntries, List.map_cons]
      constructor
      · intro same
        cases told : item.key.readAt (countedIndex keys) with
        | error e => simp [told, Except.map] at same
        | ok found =>
            obtain ⟨next, key⟩ := found
            simp only [told, Except.map, List.cons.injEq, Except.ok.injEq, Entry.mk.injEq,
              and_true] at same
            obtain ⟨rfl, further⟩ := same
            have faithful := faithful_of_readAt told
            rw [readAt_faithful faithful] at told
            cases told
            exact ⟨faithful, (inductionHypothesis later).mp further⟩
      · rintro ⟨faithful, further⟩
        rw [readAt_faithful faithful]
        exact congrArg (_ :: ·) ((inductionHypothesis later).mpr further)

end

/-- An array of static elements has the entries that PHP assigns exactly if its integers are in
plain decimal form, its texts can be counted on from, and behind no text that only looks like a
number is there a position that this number reaches. -/
theorem entries_assigned {source : List Char} {array : Node} {items : List Item}
    (listed : (elementsOf array).mapM (item? source) = some items) :
    entries source array = (assignedEntries [] items).map .ok ↔ AllFaithful [] items := by
  have start : countedIndex [] = 0 := rfl
  rw [entries, ← start]
  exact entriesFrom_assigned listed

instance (t : Text) : Decidable (Uncountable t) :=
  decidable_of_iff (indexAfter 0 t = .error .numeral)
    (indexAfter_eq_error.trans (and_iff_right rfl))

instance (keys : List ArrayKey) : Decidable (NoStray keys) :=
  inferInstanceAs (Decidable (∀ n ∈ keys.filterMap ArrayKey.stray?, n < nextIndex keys))

instance (keys : List ArrayKey) (key : ItemKey) : Decidable (Faithful keys key) :=
  match key with
  | .position =>
    inferInstanceAs (Decidable (NoStray keys ∧ nextIndex keys < 10 ^ numeralLimit))
  | .text t => inferInstanceAs (Decidable (¬ Uncountable t))
  | .integer written =>
    inferInstanceAs (Decidable (isNumeral written = true ∧ written.length ≤ numeralLimit))

instance allFaithfulDecidable :
    (keys : List ArrayKey) → (items : List Item) → Decidable (AllFaithful keys items)
  | _, [] => isTrue trivial
  | keys, item :: rest =>
    have := allFaithfulDecidable (keys ++ [assigned keys item.key]) rest
    inferInstanceAs (Decidable (Faithful keys item.key ∧ _))

/-- Elements of all forms. The text with a zero in front looks like a number that is passed. -/
def mixedArray : List Char :=
  "<?php return [5 => 'a', 'b', '3' => 'c', 'x' => 'd', '-2' => 'e', '06' => 'f', 'g'];".toList

/-- The keys of the elements are those that PHP assigns. -/
theorem entries_assigned_mixed :
    ∃ program array items, parse mixedArray none = .ok program ∧
      program.returnedArray? = some array ∧
      (elementsOf array).mapM (item? mixedArray) = some items ∧
      entries mixedArray array = (assignedEntries [] items).map .ok ∧
      (assignedEntries [] items).map (·.key) =
        ["5", "6", "3", "x", "-2", "06", "7"].map Text.ofString := by
  have reads : (parse mixedArray none).toOption.map (fun program =>
      program.returnedArray?.map fun array =>
        ((elementsOf array).mapM (item? mixedArray)).map fun items =>
          (decide (AllFaithful [] items), (assignedEntries [] items).map (·.key))) =
      some (some (some (true, ["5", "6", "3", "x", "-2", "06", "7"].map Text.ofString))) := by
    decide +kernel
  obtain ⟨program, valid, reads⟩ := ok_of_toOption reads
  obtain ⟨array, returns, reads⟩ := Option.map_eq_some_iff.mp reads
  obtain ⟨items, listed, facts⟩ := Option.map_eq_some_iff.mp reads
  obtain ⟨faithful, keys⟩ := Prod.mk.inj facts
  exact ⟨program, array, items, valid, returns, listed,
    (entries_assigned listed).mpr (of_decide_eq_true faithful), keys⟩

/-- An integer in another notation keeps the form that it is written in. -/
def hexArray : List Char := "<?php return [0x10 => 1];".toList

/-- PHP assigns sixteen, and the entry keeps the written form. -/
theorem entries_assigned_hex :
    ∃ program array items, parse hexArray none = .ok program ∧
      program.returnedArray? = some array ∧
      (elementsOf array).mapM (item? hexArray) = some items ∧
      (assignedEntries [] items).map (·.key) = [Text.ofString "16"] ∧
      (entries hexArray array).filterMap (fun attempt => attempt.toOption.map (·.key)) =
        [Text.ofString "0x10"] ∧
      entries hexArray array ≠ (assignedEntries [] items).map .ok := by
  have reads : (parse hexArray none).toOption.map (fun program =>
      program.returnedArray?.map fun array =>
        ((elementsOf array).mapM (item? hexArray)).map fun items =>
          ((assignedEntries [] items).map (·.key),
            (entries hexArray array).filterMap fun attempt => attempt.toOption.map (·.key))) =
      some (some (some ([Text.ofString "16"], [Text.ofString "0x10"]))) := by
    decide +kernel
  obtain ⟨program, valid, reads⟩ := ok_of_toOption reads
  obtain ⟨array, returns, reads⟩ := Option.map_eq_some_iff.mp reads
  obtain ⟨items, listed, facts⟩ := Option.map_eq_some_iff.mp reads
  obtain ⟨expected, told⟩ := Prod.mk.inj facts
  refine ⟨program, array, items, valid, returns, listed, expected, told, fun same => ?_⟩
  have keys : [Text.ofString "16"] = [Text.ofString "0x10"] := by
    rw [← expected, ← told, same, List.filterMap_map, ← List.filterMap_eq_map]
    rfl
  exact absurd keys (by decide)

end Untranslated.Php
