/-
This file tells which words are taken for the keywords of a use declaration, and where.
-/

import Untranslated.Proofs.Php.CaselessImports
import Untranslated.Proofs.Php.Literal.Pieces

namespace Untranslated.Php

open Text (isBlank isWord)

/-- A code point is the character that it stands for. -/
theorem toChar?_eq_some {c : CodePoint} {d : Char} : c.toChar? = some d ↔ c = .ofChar d := by
  unfold CodePoint.toChar?
  constructor
  · intro told
    by_cases valid : c.value.isValidChar
    · rw [dif_pos valid] at told
      obtain rfl := Option.some.inj told
      rfl
    · rw [dif_neg valid] at told
      cases told
  · rintro rfl
    have valid : (CodePoint.ofChar d).value.isValidChar := d.valid
    rw [dif_pos valid]
    rfl

/-- A character has the small letter of its ASCII letter. -/
theorem small_ofChar (d : Char) : (CodePoint.ofChar d).small = .ofChar (lowerAscii d) := by
  unfold lowerAscii Char.toLower CodePoint.small
  by_cases capital : d.val ≥ 'A'.val ∧ d.val ≤ 'Z'.val
  · have bounds : 0x41 ≤ (CodePoint.ofChar d).value ∧ (CodePoint.ofChar d).value ≤ 0x5A := capital
    rw [dif_pos capital, dif_pos bounds]
    have small : (d.val + ('a'.val - 'A'.val)).toNat = d.val.toNat + 0x20 := by
      have le : d.val.toNat ≤ 0x5A := capital.2
      rw [UInt32.toNat_add]
      change (d.val.toNat + 32) % 2 ^ 32 = _
      omega
    simp only [CodePoint.ofChar, CodePoint.mk.injEq]
    exact small.symm
  · have bounds : ¬ (0x41 ≤ (CodePoint.ofChar d).value ∧ (CodePoint.ofChar d).value ≤ 0x5A) :=
      capital
    rw [dif_neg capital, dif_neg bounds]

/-- A keyword consists of small ASCII letters. -/
def IsKeyword (keyword : String) : Prop := ∀ c ∈ keyword.toList, 'a' ≤ c ∧ c ≤ 'z'

instance (keyword : String) : Decidable (IsKeyword keyword) :=
  inferInstanceAs (Decidable (∀ c ∈ keyword.toList, 'a' ≤ c ∧ c ≤ 'z'))

/-- What is taken for a letter, up to the case of ASCII letters. -/
def letterForms (letter : Char) : List CodePoint :=
  if letter = 's' then [.ofChar 's', .ofChar '\u017f']
  else if letter = 'i' then [.ofChar 'i', .ofChar '\u0130', .ofChar '\u0131']
  else if letter = 'k' then [.ofChar 'k', .ofChar '\u212a']
  else [.ofChar letter]

/-- The small letters of ASCII by their numbers. -/
theorem letter_ofNat {letter : Char} (small : 'a' ≤ letter ∧ letter ≤ 'z') :
    ∃ n : Fin 26, letter = Char.ofNat (97 + n) := by
  have low : 97 ≤ letter.toNat := small.1
  have high : letter.toNat ≤ 122 := small.2
  refine ⟨⟨letter.toNat - 97, by omega⟩, ?_⟩
  rw [Nat.add_sub_cancel' low, Char.ofNat_toNat]

/-- What is taken for a letter is known as that letter, and belongs to words. -/
theorem letterForms_known {letter : Char} (small : 'a' ≤ letter ∧ letter ≤ 'z') {form : CodePoint}
    (member : form ∈ letterForms letter) :
    keywordLetter? form = some letter ∧ isWord form = true := by
  have all : ∀ n : Fin 26, ∀ form ∈ letterForms (Char.ofNat (97 + n)),
      keywordLetter? form = some (Char.ofNat (97 + n)) ∧ isWord form = true := by decide +kernel
  obtain ⟨n, rfl⟩ := letter_ofNat small
  exact all n form member

/-- A letter is one of its own forms. -/
theorem mem_letterForms {letter : Char} : .ofChar letter ∈ letterForms letter := by
  unfold letterForms
  split
  · next is => simp [is]
  · split
    · next is => simp [is]
    · split
      · next is => simp [is]
      · simp

/-- A code point is taken for a letter just when its small letter is a form of it. -/
theorem keywordLetter?_iff {letter : Char} (small : 'a' ≤ letter ∧ letter ≤ 'z') {c : CodePoint} :
    keywordLetter? c = some letter ↔ c.small ∈ letterForms letter := by
  constructor
  · intro told
    have other {n : Nat} (is : c.value = n) (valid : n < 0x110000) (far : 0x5A < n) :
        c.small = ⟨n, valid⟩ := by
      rw [CodePoint.small, dif_neg (by omega)]
      cases c
      simpa using is
    unfold keywordLetter? at told
    split at told
    · next is =>
      cases told
      rw [other is (by decide) (by decide)]
      decide
    · split at told
      · next is =>
        cases told
        rcases is with is | is <;>
        · rw [other is (by decide) (by decide)]
          decide
      · split at told
        · next is =>
          cases told
          rw [other is (by decide) (by decide)]
          decide
        · obtain ⟨d, is, rfl⟩ := Option.map_eq_some_iff.mp told
          rw [toChar?_eq_some.mp is, small_ofChar]
          exact mem_letterForms
  · intro form
    rw [← caseless_keywordLetter? c]
    exact (letterForms_known small form).1

/-- What is taken for a letter is a word character. -/
theorem isWord_keywordLetter {letter : Char} (small : 'a' ≤ letter ∧ letter ≤ 'z') {c : CodePoint}
    (is : keywordLetter? c = some letter) : isWord c = true := by
  rw [← Text.caseless_isWord c]
  exact (letterForms_known small ((keywordLetter?_iff small).mp is)).2

/-- The texts in small letters that are taken for a keyword. -/
def spellings : List Char → List Text
  | [] => [[]]
  | letter :: rest => (letterForms letter).flatMap fun c => (spellings rest).map (c :: ·)

/-- A text is taken for a keyword letter by letter. -/
theorem mem_spellings {letters : List Char} (small : ∀ c ∈ letters, 'a' ≤ c ∧ c ≤ 'z') {t : Text} :
    t.small ∈ spellings letters ↔ t.map keywordLetter? = letters.map some := by
  induction letters generalizing t with
  | nil => simp [spellings, Text.small]
  | cons letter rest inductionHypothesis =>
      obtain ⟨first, others⟩ := List.forall_mem_cons.mp small
      cases t with
      | nil => simp [spellings]
      | cons c t =>
          rw [Text.small_cons, List.map_cons, List.map_cons, List.cons.injEq,
            keywordLetter?_iff first, ← inductionHypothesis others]
          simp [spellings]

/-- A keyword is one of its own spellings. -/
theorem spellings_self (letters : List Char) : Text.ofChars letters ∈ spellings letters := by
  induction letters with
  | nil => exact List.mem_singleton_self _
  | cons letter rest inductionHypothesis =>
      exact List.mem_flatMap.mpr
        ⟨_, mem_letterForms, List.mem_map.mpr ⟨_, inductionHypothesis, rfl⟩⟩

/-- A text is taken for a keyword just when its small letters spell it. -/
theorem matchesKeyword_iff {keyword : String} (letters : IsKeyword keyword) {t : Text} :
    matchesKeyword keyword t = true ↔ t.small ∈ spellings keyword.toList := by
  rw [matchesKeyword, beq_iff_eq, mem_spellings letters]

/-- A keyword in letters of any case is taken for it. -/
theorem matchesKeyword_self {keyword : String} (letters : IsKeyword keyword) {t : Text}
    (is : t.small = Text.ofString keyword) : matchesKeyword keyword t = true := by
  rw [matchesKeyword_iff letters, is]
  exact spellings_self keyword.toList

/-- The words that are no keyword and are taken for one, up to the case of ASCII letters. -/
def lookalikes : List Text :=
  [Text.ofString "funct\u0130on", Text.ofString "funct\u0131on", Text.ofString "con\u017ft"]

/-- Two words are taken for this keyword that are no spelling of it. -/
theorem matchesKeyword_function {t : Text} :
    matchesKeyword "function" t = true ↔ t.small ∈ [Text.ofString "function",
      Text.ofString "funct\u0130on", Text.ofString "funct\u0131on"] := by
  rw [matchesKeyword_iff (by decide)]
  rfl

/-- One word is taken for this keyword that is no spelling of it. -/
theorem matchesKeyword_const {t : Text} :
    matchesKeyword "const" t = true ↔
      t.small ∈ [Text.ofString "const", Text.ofString "con\u017ft"] := by
  rw [matchesKeyword_iff (by decide)]
  rfl

/-- A lookalike is taken for the keyword of a constant, whatever it looks like. -/
theorem keywordKind_lookalike {word : Text} (alike : word.small ∈ lookalikes) :
    keywordKind word = .constant := by
  rw [← keywordKind_small]
  have all : ∀ word ∈ lookalikes, keywordKind word = .constant := by decide +kernel
  exact all _ alike

/-- What is taken for a keyword is as long as the keyword. -/
theorem matchesKeyword_length {keyword : String} {t : Text}
    (is : matchesKeyword keyword t = true) : t.length = keyword.length := by
  rw [matchesKeyword, beq_iff_eq] at is
  rw [← String.length_toList]
  simpa using congrArg List.length is

/-- What is taken for a keyword consists of word characters. -/
theorem matchesKeyword_isWord {keyword : String} (letters : IsKeyword keyword) {t : Text}
    (is : matchesKeyword keyword t = true) : ∀ c ∈ t, isWord c = true := by
  rw [matchesKeyword, beq_iff_eq] at is
  intro c member
  have mapped : keywordLetter? c ∈ keyword.toList.map some := is ▸ List.mem_map_of_mem member
  obtain ⟨letter, inside, own⟩ := List.mem_map.mp mapped
  exact isWord_keywordLetter (letters letter inside) own.symm

/-- A keyword ends where its word does, and a blank has to follow. -/
theorem afterKeyword?_word {keyword : String} (letters : IsKeyword keyword) {word : Text}
    (whole : ∀ c ∈ word, isWord c = true) {stop : CodePoint} (ends : isWord stop = false)
    (rest : Text) :
    afterKeyword? keyword (word ++ stop :: rest) =
      if matchesKeyword keyword word && isBlank stop then some ((stop :: rest).dropWhile isBlank)
      else none := by
  rw [afterKeyword?]
  rcases Nat.lt_trichotomy word.length keyword.length with short | same | long
  · -- A keyword that goes on beyond the word would have the stop in it.
    have noMatch : matchesKeyword keyword word = false := by
      rw [Bool.eq_false_iff]
      intro is
      exact absurd (matchesKeyword_length is) (Nat.ne_of_lt short)
    have noFront : matchesKeyword keyword ((word ++ stop :: rest).take keyword.length) = false := by
      rw [Bool.eq_false_iff]
      intro is
      have inside : stop ∈ (word ++ stop :: rest).take keyword.length := by
        obtain ⟨count, more⟩ := Nat.exists_eq_succ_of_ne_zero (Nat.sub_ne_zero_of_lt short)
        rw [List.take_append, more, List.take_succ_cons]
        exact List.mem_append_right _ List.mem_cons_self
      rw [matchesKeyword_isWord letters is stop inside] at ends
      cases ends
    simp only [noFront, noMatch, Bool.false_and, Bool.false_eq_true, if_false]
  · rw [← same, List.take_left, List.drop_left]
    rfl
  · -- A keyword that ends inside the word has no blank behind it.
    have noMatch : matchesKeyword keyword word = false := by
      rw [Bool.eq_false_iff]
      intro is
      exact absurd (matchesKeyword_length is) (Nat.ne_of_gt long)
    have noBlank : ((word ++ stop :: rest).drop keyword.length).head?.any isBlank = false := by
      rw [List.drop_append_of_le_length (Nat.le_of_lt long), List.drop_eq_getElem_cons long]
      exact Text.isBlank_of_word (whole _ (List.getElem_mem long))
    simp only [noBlank, noMatch, Bool.and_false, Bool.false_and, Bool.false_eq_true, if_false]

end Untranslated.Php
