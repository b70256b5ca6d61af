/-
This file proves that a text is read back from its UTF-8 form, and which bytes end its lines.
-/

import Mathlib.Data.List.Induction
import Untranslated.Text.Utf8

namespace Untranslated.Utf8

section

variable {n : Nat}

theorem sixBits (n : Nat) : n % 0x40 < 0x40 := Nat.mod_lt n (by decide)

/-- Six bits behind the mark make a continuation byte. -/
theorem isContinuation_ofNat (small : n < 0x40) :
    isContinuation (UInt8.ofNat (n + 0x80)) = true := by
  simp [isContinuation, UInt8.le_iff_toNat_le, UInt8.lt_iff_toNat_lt]
  omega

theorem payload_ofNat (small : n < 0x40) : payload (UInt8.ofNat (n + 0x80)) = n := by
  simp [payload]
  omega

/-- The first byte announces the length. -/
theorem announced_ofNat (byte : n < 0x100) : announced (UInt8.ofNat n) =
    if n < 0x80 then 1 else if n < 0xC2 then 0 else if n < 0xE0 then 2 else if n < 0xF0 then 3
      else if n < 0xF5 then 4 else 0 := by
  simp [announced, UInt8.lt_iff_toNat_lt, Nat.mod_eq_of_lt byte]

/-- A first byte of two announces two bytes. -/
theorem announced_two (large : 2 ≤ n) (small : n < 0x20) :
    announced (UInt8.ofNat (n + 0xC0)) = 2 := by
  rw [announced_ofNat (by omega), if_neg (by omega), if_neg (by omega), if_pos (by omega)]

/-- A first byte of three announces three bytes. -/
theorem announced_three (small : n < 0x10) : announced (UInt8.ofNat (n + 0xE0)) = 3 := by
  rw [announced_ofNat (by omega), if_neg (by omega), if_neg (by omega), if_neg (by omega),
    if_pos (by omega)]

/-- A first byte of four announces four bytes. -/
theorem announced_four (small : n < 0x5) : announced (UInt8.ofNat (n + 0xF0)) = 4 := by
  rw [announced_ofNat (by omega), if_neg (by omega), if_neg (by omega), if_neg (by omega),
    if_neg (by omega), if_pos (by omega)]

/-- The second byte of a form in three bytes is admitted where the form is neither overlong nor a
surrogate. -/
theorem admitsSecond_three {m : Nat} (lead : m < 0x10) (small : n < 0x40)
    (long : m = 0 → 0x20 ≤ n) (noSurrogate : m = 0xD → n < 0x20) :
    admitsSecond (UInt8.ofNat (m + 0xE0)) (UInt8.ofNat (n + 0x80)) = true := by
  have continues := isContinuation_ofNat small
  simp only [admitsSecond, continues, Bool.true_and]
  simp [← UInt8.toNat_inj, UInt8.le_iff_toNat_le, UInt8.lt_iff_toNat_lt]
  omega

/-- The second byte of a form in four bytes is admitted where the form is neither overlong nor
beyond the last code point. -/
theorem admitsSecond_four {m : Nat} (lead : m < 0x5) (small : n < 0x40)
    (long : m = 0 → 0x10 ≤ n) (inRange : m = 4 → n < 0x10) :
    admitsSecond (UInt8.ofNat (m + 0xF0)) (UInt8.ofNat (n + 0x80)) = true := by
  have continues := isContinuation_ofNat small
  simp only [admitsSecond, continues, Bool.true_and]
  simp [← UInt8.toNat_inj, UInt8.le_iff_toNat_le, UInt8.lt_iff_toNat_lt]
  omega

end

section

variable {lead b c d : UInt8} (rest : Bytes)

/-- Two bytes give their bits. -/
theorem step_twoBytes (two : announced lead = 2) (continues : isContinuation b = true) :
    step lead (b :: rest) = .char (Char.ofNat (lead.toNat % 0x20 * 0x40 + payload b)) 2 := by
  unfold step
  rw [two]
  exact if_pos continues

/-- Three bytes give their bits. -/
theorem step_threeBytes (three : announced lead = 3) (admits : admitsSecond lead b = true)
    (continues : isContinuation c = true) :
    step lead (b :: c :: rest) =
      .char (Char.ofNat ((lead.toNat % 0x10 * 0x40 + payload b) * 0x40 + payload c)) 3 := by
  have admits' : ¬(!admitsSecond lead b) = true := by simp [admits]
  have continues' : ¬(!isContinuation c) = true := by simp [continues]
  unfold step
  rw [three]
  exact (if_neg admits').trans (if_neg continues')

/-- Four bytes give their bits. -/
theorem step_fourBytes (four : announced lead = 4) (admits : admitsSecond lead b = true)
    (continues : isContinuation c = true) (ends : isContinuation d = true) :
    step lead (b :: c :: d :: rest) =
      .char (Char.ofNat
        (((lead.toNat % 0x8 * 0x40 + payload b) * 0x40 + payload c) * 0x40 + payload d)) 4 := by
  have admits' : ¬(!admitsSecond lead b) = true := by simp [admits]
  have continues' : ¬(!isContinuation c) = true := by simp [continues]
  have ends' : ¬(!isContinuation d) = true := by simp [ends]
  unfold step
  rw [four]
  exact (if_neg admits').trans ((if_neg continues').trans (if_neg ends'))

end

section

variable {v : Nat} (rest : Bytes)

/-- A character of one byte is read back. -/
theorem step_one (small : v ≤ 0x7F) :
    step (UInt8.ofNat v) rest = .char (Char.ofNat v) 1 := by
  have whole : (UInt8.ofNat v).toNat = v := by
    simp
    omega
  unfold step
  rw [announced_ofNat (by omega), if_pos (by omega), whole]
  rfl

/-- A character of two bytes is read back. -/
theorem step_two (large : 0x7F < v) (small : v ≤ 0x7FF) :
    step (UInt8.ofNat (v / 64 % 0x20 + 0xC0)) (UInt8.ofNat (v % 0x40 + 0x80) :: rest) =
      .char (Char.ofNat v) 2 := by
  have joined : (v / 64 % 0x20 + 0xC0) % 2 ^ 8 % 0x20 * 0x40 + v % 0x40 = v := by omega
  rw [step_twoBytes rest (announced_two (by omega) (by omega)) (isContinuation_ofNat (sixBits v)),
    payload_ofNat (sixBits v), UInt8.toNat_ofNat', joined]

/-- A character of three bytes is read back. -/
theorem step_three (large : 0x7FF < v) (small : v ≤ 0xFFFF)
    (noSurrogate : v < 0xD800 ∨ 0xDFFF < v) :
    step (UInt8.ofNat (v / 4096 % 0x10 + 0xE0))
        (UInt8.ofNat (v / 64 % 0x40 + 0x80) :: UInt8.ofNat (v % 0x40 + 0x80) :: rest) =
      .char (Char.ofNat v) 3 := by
  have joined : ((v / 4096 % 0x10 + 0xE0) % 2 ^ 8 % 0x10 * 0x40 + v / 64 % 0x40) * 0x40 +
    v % 0x40 = v := by omega
  have admits : admitsSecond (UInt8.ofNat (v / 4096 % 0x10 + 0xE0))
      (UInt8.ofNat (v / 64 % 0x40 + 0x80)) = true :=
    admitsSecond_three (by omega) (by omega) (by omega) (by omega)
  rw [step_threeBytes rest (announced_three (by omega)) admits (isContinuation_ofNat (sixBits v)),
    payload_ofNat (sixBits _), payload_ofNat (sixBits _), UInt8.toNat_ofNat', joined]

/-- A character of four bytes is read back. -/
theorem step_four (large : 0xFFFF < v) (small : v < 0x110000) :
    step (UInt8.ofNat (v / 262144 % 0x08 + 0xF0))
        (UInt8.ofNat (v / 4096 % 0x40 + 0x80) :: UInt8.ofNat (v / 64 % 0x40 + 0x80) ::
          UInt8.ofNat (v % 0x40 + 0x80) :: rest) =
      .char (Char.ofNat v) 4 := by
  have joined : (((v / 262144 % 0x08 + 0xF0) % 2 ^ 8 % 0x8 * 0x40 + v / 4096 % 0x40) * 0x40 +
    v / 64 % 0x40) * 0x40 + v % 0x40 = v := by omega
  have admits : admitsSecond (UInt8.ofNat (v / 262144 % 0x08 + 0xF0))
      (UInt8.ofNat (v / 4096 % 0x40 + 0x80)) = true :=
    admitsSecond_four (by omega) (by omega) (by omega) (by omega)
  rw [step_fourBytes rest (announced_four (by omega)) admits (isContinuation_ofNat (sixBits _))
      (isContinuation_ofNat (sixBits v)), payload_ofNat (sixBits _), payload_ofNat (sixBits _),
    payload_ofNat (sixBits _), UInt8.toNat_ofNat', joined]

end

/-- The form of a character has a first byte, and is read back as the character in one step,
whatever follows. -/
theorem step_encode (c : Char) (rest : Bytes) : ∃ lead others,
    String.utf8EncodeChar c = lead :: others ∧
      step lead (others ++ rest) = .char c (others.length + 1) := by
  have number : Char.ofNat c.val.toNat = c := Char.ofNat_toNat c
  have valid : c.val.toNat.isValidChar := c.valid
  rw [Nat.isValidChar] at valid
  unfold String.utf8EncodeChar
  generalize c.val.toNat = v at number valid
  subst number
  dsimp only
  split
  · next small => exact ⟨_, _, rfl, step_one rest small⟩
  · split
    · next large small => exact ⟨_, _, rfl, step_two rest (by omega) small⟩
    · split
      · next large small => exact ⟨_, _, rfl, step_three rest (by omega) small (by omega)⟩
      · next large => exact ⟨_, _, rfl, step_four rest (by omega) (by omega)⟩

theorem encode_cons (c : Char) (rest : List Char) :
    encode (c :: rest) = String.utf8EncodeChar c ++ encode rest := List.flatMap_cons

theorem encode_append (first second : List Char) :
    encode (first ++ second) = encode first ++ encode second := List.flatMap_append

/-- A text is read back from its bytes. -/
theorem decodeReplacingFrom_encode (cs : List Char) {fuel : Nat}
    (enough : (encode cs).length ≤ fuel) : decodeReplacingFrom fuel (encode cs) = cs := by
  induction cs generalizing fuel with
  | nil => cases fuel <;> rfl
  | cons c rest inductionHypothesis =>
      obtain ⟨lead, others, is, read⟩ := step_encode c (encode rest)
      rw [encode_cons, is] at enough ⊢
      simp only [List.cons_append, List.length_cons, List.length_append] at enough
      obtain ⟨fuel, rfl⟩ := Nat.exists_eq_add_of_le' (Nat.one_le_of_lt enough)
      rw [List.cons_append, decodeReplacingFrom, read]
      simp only [Nat.add_sub_cancel, List.drop_left]
      rw [inductionHypothesis (by omega)]

/-- A text is read back from its form. -/
theorem decodeReplacing_encode (cs : List Char) : decodeReplacing (encode cs) = cs :=
  decodeReplacingFrom_encode cs (Nat.le_refl _)

/-- Only a newline has its byte in its form. -/
theorem mem_encode_newline {c : Char} (other : c ≠ '\n') : 10 ∉ String.utf8EncodeChar c := by
  have number : c.val.toNat ≠ 10 := fun same => other (Char.toNat_inj.mp same)
  have valid : c.val.toNat.isValidChar := c.valid
  rw [Nat.isValidChar] at valid
  unfold String.utf8EncodeChar
  generalize c.val.toNat = v at number valid
  dsimp only
  repeat' split
  all_goals
    simp [← UInt8.toNat_inj]
    omega

/-- A text has as many newlines as its bytes have. -/
theorem count_encode (cs : List Char) : (encode cs).count 10 = cs.count '\n' := by
  induction cs with
  | nil => rfl
  | cons c rest inductionHypothesis =>
      rw [encode_cons, List.count_append, inductionHypothesis, List.count_cons]
      by_cases newline : c = '\n'
      · subst newline
        exact Nat.add_comm _ _
      · rw [List.count_eq_zero_of_not_mem (mem_encode_newline newline)]
        simp [newline]

section

variable {A : Type} [BEq A] [LawfulBEq A] {mark : A}

theorem afterLast_append_mark (values : List A) : afterLast mark (values ++ [mark]) = [] := by
  simp [afterLast]

/-- What follows the last mark goes on with later values. -/
theorem afterLast_append (values : List A) {later : List A} (plain : mark ∉ later) :
    afterLast mark (values ++ later) = afterLast mark values ++ later := by
  have whole : ∀ value ∈ later.reverse, (value != mark) = true := by
    intro value member
    have other : value ≠ mark := fun same => plain (same ▸ List.mem_reverse.mp member)
    simpa using other
  rw [afterLast, afterLast, List.reverse_append, List.takeWhile_append_of_pos whole,
    List.reverse_append, List.reverse_reverse]

end

/-- The last line of the form is the form of the last line. -/
theorem afterLast_encode (cs : List Char) :
    afterLast 10 (encode cs) = encode (afterLast '\n' cs) := by
  induction cs using List.reverseRecOn with
  | nil => rfl
  | append_singleton front c inductionHypothesis =>
      rw [encode_append]
      by_cases newline : c = '\n'
      · subst newline
        rw [afterLast_append_mark]
        exact afterLast_append_mark _
      · have plain : 10 ∉ encode [c] := by simpa [encode] using mem_encode_newline newline
        rw [afterLast_append _ plain, afterLast_append _ (by simpa using Ne.symm newline),
          inductionHypothesis, encode_append]

/-- The column of a byte counts the characters of the text before it that follow the last
newline. -/
theorem column_encode {text front : List Char} (starts : front <+: text) :
    column (encode text) (encode front).length = 1 + (afterLast '\n' front).length := by
  obtain ⟨back, rfl⟩ := starts
  rw [column, encode_append, List.take_left, afterLast_encode, decodeReplacing_encode,
    Nat.add_comm]

end Untranslated.Utf8
