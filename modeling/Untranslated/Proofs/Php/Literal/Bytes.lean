/-
This file compares the text of a quoted body with the bytes that the body stands for.
The UTF-8 form of the text is these bytes just when no escape gives a byte beyond ASCII, for such a
byte is read as a character of its own.
-/

import Untranslated.Proofs.Php.Literal.Pieces
import Untranslated.Proofs.Text.Utf8

namespace Untranslated.Php.Literal

open Utf8 (Bytes)

/-- The value of a digit below sixteen, in either case. It is sixteen for any other character. -/
def digitNumber (c : Char) : Nat :=
  if c.isDigit then c.toNat - '0'.toNat
  else if 'a' ≤ c ∧ c ≤ 'f' then c.toNat - 'a'.toNat + 10
  else if 'A' ≤ c ∧ c ≤ 'F' then c.toNat - 'A'.toNat + 10
  else 16

/-- The value of a digit of a base. -/
def digitIn? (base : Nat) (c : Char) : Option Nat :=
  if digitNumber c < base then some (digitNumber c) else none

/-- As many digits as there are, up to a limit. -/
def digitRun (base : Nat) : Nat → List Char → List Nat
  | 0, _ => []
  | _ + 1, [] => []
  | limit + 1, c :: rest =>
    match digitIn? base c with
    | some digit => digit :: digitRun base limit rest
    | none => []

/-- The number of digits, the most significant one first. -/
def numberOf (base : Nat) (digits : List Nat) : Nat := Nat.ofDigits base digits.reverse

/-- The bytes of escapes that consist of a backslash and one character. -/
def shortBytes : List (Char × UInt8) :=
  [('n', 0x0A), ('t', 0x09), ('r', 0x0D), ('v', 0x0B), ('e', 0x1B), ('f', 0x0C), ('\\', 0x5C),
    ('$', 0x24), ('"', 0x22)]

/-- The UTF-8 form of a number. A number beyond the last code point and a surrogate have none. -/
def scalarBytes? (n : Nat) : Option Bytes :=
  if n.isValidChar then some (String.utf8EncodeChar (Char.ofNat n)) else none

/-- Digits in braces name a code point. -/
def pointBytes? : List Char → Option (Nat × Option Bytes)
  | '\x7b' :: rest =>
    let digits := digitRun 16 rest.length rest
    if digits ≠ [] ∧ (rest.drop digits.length).head? = some '\x7d' then
      some (digits.length + 3, scalarBytes? (numberOf 16 digits))
    else none
  | _ => none

/-- The escape behind a backslash, if there is one: its length and its bytes. A number of one byte
counts modulo 256. -/
def escapedBytes? : List Char → Option (Nat × Option Bytes)
  | [] => none
  | c :: rest =>
    let octal := digitRun 8 3 (c :: rest)
    let hex := digitRun 16 2 rest
    match shortBytes.lookup c with
    | some byte => some (1, some [byte])
    | none =>
      if octal ≠ [] then some (octal.length, some [UInt8.ofNat (numberOf 8 octal)])
      else if c = 'x' then
        if hex ≠ [] then some (hex.length + 1, some [UInt8.ofNat (numberOf 16 hex)]) else none
      else if c = 'u' then pointBytes? rest
      else none

/-- The bytes after so many characters, which belong to an escape already. -/
def bytesAfter? : Nat → List Char → Option Bytes
  | _, [] => some []
  | skipped + 1, _ :: rest => bytesAfter? skipped rest
  | 0, c :: rest =>
    if c = '\\' then
      match escapedBytes? rest with
      | some (size, own) => do return (← own) ++ (← bytesAfter? size rest)
      | none => do return 0x5C :: (← bytesAfter? 0 rest)
    else do return String.utf8EncodeChar c ++ (← bytesAfter? 0 rest)

/-- The bytes that a double-quoted body stands for, read from left to right. They are absent if an
escape names a number that is no character. -/
def bytes? (body : List Char) : Option Bytes := bytesAfter? 0 body

/-- The bytes of a piece of a body. -/
def Piece.bytes? : Piece → Option Bytes
  | .plain c => scalarBytes? c.value
  | .simple _ value => some (String.utf8EncodeChar value)
  | .octal digits => some [UInt8.ofNat (number 8 digits)]
  | .hex digits => some [UInt8.ofNat (number 16 digits)]
  | .point digits => scalarBytes? (number 16 digits)

/-- The hexadecimal digits are those that the reader knows. -/
theorem digitIn?_hex (c : Char) : digitIn? 16 c = digitValue? (.ofChar c) := by
  have zero : '0'.toNat = 48 := rfl
  have lower : 'a'.toNat = 97 := rfl
  have upper : 'A'.toNat = 65 := rfl
  have value : (CodePoint.ofChar c).value = c.toNat := rfl
  have digit : c.isDigit = true ↔ 48 ≤ c.toNat ∧ c.toNat ≤ 57 := by
    simp only [Char.isDigit, Bool.and_eq_true, decide_eq_true_eq]
    exact Iff.rfl
  have small : ('a' ≤ c ∧ c ≤ 'f') ↔ 97 ≤ c.toNat ∧ c.toNat ≤ 102 := Iff.rfl
  have capital : ('A' ≤ c ∧ c ≤ 'F') ↔ 65 ≤ c.toNat ∧ c.toNat ≤ 70 := Iff.rfl
  simp only [digitIn?, digitNumber, digitValue?, value, digit, small, capital, zero, lower, upper,
    Bool.and_eq_true, decide_eq_true_eq]
  split
  · rw [if_pos (by omega)]
  · split
    · rw [if_pos (by omega)]
      congr 1
      omega
    · split
      · rw [if_pos (by omega)]
        congr 1
        omega
      · rw [if_neg (by omega)]

/-- The octal digits are those that the reader knows. -/
theorem digitIn?_octal (c : Char) :
    digitIn? 8 c = if isOctalDigit (.ofChar c) then digitValue? (.ofChar c) else none := by
  rw [isOctalDigit, ← digitIn?_hex, digitIn?, digitIn?]
  by_cases octal : digitNumber c < 8
  · have hex : digitNumber c < 16 := by omega
    simp [octal, hex]
  · by_cases hex : digitNumber c < 16 <;> simp [octal, hex]

/-- The digits of a class are taken up to the limit. -/
theorem digitRun_eq {base : Nat} {test : CodePoint → Bool}
    (digit : ∀ c, digitIn? base c = if test (.ofChar c) then digitValue? (.ofChar c) else none)
    (known : ∀ c, test c = true → (digitValue? c).isSome) (limit : Nat) (cs : List Char) :
    digitRun base limit cs =
      (((Text.ofChars cs).takeWhile test).take limit).map fun c => (digitValue? c).getD 0 := by
  induction cs generalizing limit with
  | nil => cases limit <;> rfl
  | cons c rest inductionHypothesis =>
      cases limit with
      | zero => rfl
      | succ limit =>
          rw [digitRun, digit, Text.ofChars, List.map_cons, ← Text.ofChars]
          cases is : test (.ofChar c) with
          | false => simp [is]
          | true =>
              obtain ⟨value, found⟩ := Option.isSome_iff_exists.mp (known _ is)
              simp [is, found, inductionHypothesis]

/-- The reader takes the same octal digits. -/
theorem octalRun (cs : List Char) : digitRun 8 3 cs =
    (((Text.ofChars cs).takeWhile isOctalDigit).take 3).map fun c => (digitValue? c).getD 0 := by
  refine digitRun_eq digitIn?_octal (fun c is => ?_) 3 cs
  rw [isOctalDigit] at is
  cases found : digitValue? c with
  | none =>
      rw [found] at is
      cases is
  | some value => rfl

/-- The reader takes the same hexadecimal digits. -/
theorem hexRun (limit : Nat) (cs : List Char) : digitRun 16 limit cs =
    (((Text.ofChars cs).takeWhile isHexDigit).take limit).map fun c => (digitValue? c).getD 0 := by
  have known (c : CodePoint) (is : isHexDigit c = true) : (digitValue? c).isSome := is
  refine digitRun_eq (fun c => ?_) known limit cs
  have is : isHexDigit (.ofChar c) = (digitValue? (.ofChar c)).isSome := rfl
  rw [digitIn?_hex, is]
  cases digitValue? (.ofChar c) <;> rfl

/-- The short escapes are those that the reader knows. -/
theorem shortBytes_lookup (c : Char) : (shortBytes.lookup c).map ([·]) =
    (simpleEscape? (.ofChar c)).map String.utf8EncodeChar := by
  simp only [shortBytes, simpleEscape?, simpleEscapes, List.lookup_cons, List.lookup_nil,
    List.find?_cons, List.find?_nil, is_ofChar, beq_eq_decide, eq_comm (a := c)]
  repeat' split
  all_goals first | rfl | simp_all

/-- The first code point of a text is its first character. -/
theorem head?_ofChars (cs : List Char) (d : Char) :
    (Text.ofChars cs).head?.any (·.is d) = decide (cs.head? = some d) := by
  cases cs with
  | nil => simp [Text.ofChars]
  | cons c rest => simp [Text.ofChars]

/-- Code points are left out with their characters. -/
theorem drop_ofChars (count : Nat) (cs : List Char) :
    (Text.ofChars cs).drop count = Text.ofChars (cs.drop count) := by
  rw [Text.ofChars, Text.ofChars, List.map_drop]

/-- The reader finds the same digits in braces. -/
theorem pointBytes?_eq (cs : List Char) : pointBytes? cs =
    if bracesDigits (Text.ofChars cs) then
      some ((pointDigits (Text.ofChars cs)).length + 3,
        scalarBytes? (number 16 (pointDigits (Text.ofChars cs))))
    else none := by
  unfold pointBytes?
  split
  · next rest =>
    -- The limit is the length of the text, so that all digits are taken.
    have run := hexRun rest.length rest
    have all : ((Text.ofChars rest).takeWhile isHexDigit).take rest.length =
        pointDigits (Text.ofChars ('\x7b' :: rest)) := by
      refine List.take_of_length_le ?_
      have inside : ((Text.ofChars rest).takeWhile isHexDigit).length ≤ (Text.ofChars rest).length :=
        (List.takeWhile_prefix _).length_le
      rwa [Text.ofChars, List.length_map] at inside
    rw [all] at run
    have filled : (digitRun 16 rest.length rest ≠ []) =
        ((pointDigits (Text.ofChars ('\x7b' :: rest))).isEmpty = false) := by
      simp [run]
    have length : (digitRun 16 rest.length rest).length =
        (pointDigits (Text.ofChars ('\x7b' :: rest))).length := by
      rw [run, List.length_map]
    have behind : (Text.ofChars ('\x7b' :: rest)).drop
        (1 + (pointDigits (Text.ofChars ('\x7b' :: rest))).length) =
          Text.ofChars (rest.drop (digitRun 16 rest.length rest).length) := by
      rw [Nat.add_comm, drop_ofChars, List.drop_succ_cons, length]
    have opens : (Text.ofChars ('\x7b' :: rest)).head?.any (·.is '\x7b') = true := by
      rw [head?_ofChars]
      rfl
    simp only [bracesDigits, opens, behind, head?_ofChars, number_eq, numberOf, filled, length,
      Bool.true_and, Bool.and_eq_true, Bool.not_eq_true', decide_eq_true_eq]
    rw [run]
  · next other =>
    have none : (Text.ofChars cs).head?.any (·.is '\x7b') = false := by
      rw [head?_ofChars, decide_eq_false_iff_not]
      intro opens
      obtain ⟨rest, rfl⟩ := List.head?_eq_some_iff.mp opens
      exact other rest rfl
    simp [bracesDigits, none]

/-- The reader finds the same escapes. -/
theorem escapedBytes?_eq (cs : List Char) : escapedBytes? cs =
    (escape? (Text.ofChars cs)).map fun piece => (piece.size - 1, piece.bytes?) := by
  cases cs with
  | nil => rfl
  | cons c rest =>
      have octal := octalRun (c :: rest)
      have hex := hexRun 2 rest
      have first : isOctalDigit (.ofChar c) =
          !(((Text.ofChars (c :: rest)).takeWhile isOctalDigit).take 3).isEmpty := by
        cases is : isOctalDigit (.ofChar c) <;> simp [Text.ofChars, is]
      have short := shortBytes_lookup c
      simp only [escapedBytes?, Text.ofChars, List.map_cons, escape?_cons]
      simp only [Text.ofChars, List.map_cons] at octal hex first
      rw [octal, hex, first, pointBytes?_eq, Text.ofChars]
      cases found : simpleEscape? (.ofChar c) with
      | some value =>
          rw [found] at short
          obtain ⟨byte, looked, same⟩ := Option.map_eq_some_iff.mp short
          rw [looked]
          exact congrArg (fun own => some (1, some own)) same
      | none =>
          rw [found] at short
          rw [Option.map_eq_none_iff.mp short]
          simp only [is_ofChar, numberOf]
          generalize ((CodePoint.ofChar c :: rest.map CodePoint.ofChar).takeWhile
            isOctalDigit).take 3 = digits
          generalize ((rest.map CodePoint.ofChar).takeWhile isHexDigit).take 2 = pair
          cases digits with
          | cons d digits => simp [Piece.size, Piece.bytes?, number_eq]
          | nil =>
              by_cases x : c = 'x'
              · cases pair with
                | nil => simp [x]
                | cons d pair =>
                    have size : 2 + (pair.length + 1) - 1 = pair.length + 1 + 1 := by omega
                    simp [x, Piece.size, Piece.bytes?, number_eq, size]
              · by_cases u : c = 'u'
                · cases bracesDigits (rest.map CodePoint.ofChar) with
                  | false => simp [u]
                  | true =>
                      have size (digits : Text) : 4 + digits.length - 1 = digits.length + 3 := by omega
                      simp [u, Piece.size, Piece.bytes?, size]
                · simp [x, u]

/-- Characters that belong to an escape are left out. -/
theorem bytesAfter?_eq (skipped : Nat) (body : List Char) :
    bytesAfter? skipped body = bytes? (body.drop skipped) := by
  induction body generalizing skipped with
  | nil => cases skipped <;> rfl
  | cons c rest inductionHypothesis =>
      cases skipped with
      | zero => rfl
      | succ skipped => exact inductionHypothesis skipped

/-- A character is written by its number as it is in UTF-8. -/
theorem scalarBytes?_toNat (c : Char) :
    scalarBytes? c.toNat = some (String.utf8EncodeChar c) := by
  have valid : c.toNat.isValidChar := c.valid
  rw [scalarBytes?, if_pos valid, Char.ofNat_toNat]

/-- The bytes of a body are those of its first piece and of what is left after it. -/
theorem bytes?_cons (c : Char) (rest : List Char) : bytes? (c :: rest) = do
    let own ← (pieceAt (.ofChar c) (Text.ofChars rest)).bytes?
    let more ← bytes? (rest.drop ((pieceAt (.ofChar c) (Text.ofChars rest)).size - 1))
    return own ++ more := by
  rw [bytes?, bytesAfter?]
  by_cases begins : c = '\\'
  · rw [if_pos begins, begins, escapedBytes?_eq, show CodePoint.ofChar '\\' = backslash from rfl,
      pieceAt_backslash]
    cases escape? (Text.ofChars rest) with
    | none => rfl
    | some piece => simp [bytesAfter?_eq]
  · have plain : CodePoint.ofChar c ≠ backslash := fun same => begins (CodePoint.ofCharInjective same)
    have own : (Piece.plain (.ofChar c)).bytes? = some (String.utf8EncodeChar c) :=
      scalarBytes?_toNat c
    rw [if_neg begins, pieceAt_plain plain, own]
    rfl

/-- The bytes of a body are those of its pieces. -/
theorem bytes?_eq (body : List Char) :
    bytes? body = ((pieces (Text.ofChars body)).mapM Piece.bytes?).map List.flatten := by
  induction length : body.length using Nat.strongRecOn generalizing body with
  | ind bound inductionHypothesis =>
  subst length
  cases body with
  | nil => rfl
  | cons c rest =>
      have shorter (size : Nat) : (rest.drop size).length < (c :: rest).length := by
        rw [List.length_drop, List.length_cons]
        omega
      have consed : Text.ofChars (c :: rest) = .ofChar c :: Text.ofChars rest := rfl
      rw [bytes?_cons, inductionHypothesis _ (shorter _) _ rfl, consed, pieces_cons, drop_ofChars,
        List.mapM_cons]
      cases (pieceAt (.ofChar c) (Text.ofChars rest)).bytes? with
      | none => rfl
      | some own =>
          cases (pieces (Text.ofChars (rest.drop _))).mapM Piece.bytes? with
          | none => rfl
          | some more => rfl

/-- Whether a piece gives a byte beyond ASCII by its number. -/
def Piece.isHighByte : Piece → Bool
  | .octal digits => 128 ≤ number 8 digits % 256
  | .hex digits => 128 ≤ number 16 digits % 256
  | _ => false

/-- The UTF-8 form of a small number is its byte. From 128 on it has two bytes. -/
theorem encode_byte {n : Nat} (small : n < 256) :
    (Utf8.encode [Char.ofNat n]).length = 1 + (decide (128 ≤ n)).toNat ∧
      (n < 128 → Utf8.encode [Char.ofNat n] = [UInt8.ofNat n]) := by
  revert n
  decide +kernel

theorem toNat_ofNat {n : Nat} (valid : n.isValidChar) : (Char.ofNat n).toNat = n := by
  rw [Char.ofNat, dif_pos valid]
  rfl

/-- A number with a UTF-8 form is a character. -/
theorem scalarBytes?_some {n : Nat} {own : Bytes} (stands : scalarBytes? n = some own) :
    ∃ inRange : n < 0x110000, [CodePoint.mk n inRange] = Text.ofChars [Char.ofNat n] ∧
      Utf8.encode [Char.ofNat n] = own := by
  obtain ⟨valid, same⟩ := Option.ite_none_right_eq_some.mp stands
  have inRange : n < 0x110000 := by
    simp only [Nat.isValidChar] at valid
    omega
  refine ⟨inRange, ?_, ?_⟩
  · simp only [Text.ofChars, CodePoint.ofChar, toNat_ofNat valid, List.map_cons, List.map_nil]
  · rw [Utf8.encode, List.flatMap_singleton]
    exact Option.some_inj.mp same

/-- A byte is read as the character of its number. -/
theorem ofByte_character (n : Nat) : [CodePoint.ofByte n] = Text.ofChars [Char.ofNat (n % 256)] := by
  have valid : (n % 256).isValidChar := by
    simp only [Nat.isValidChar]
    omega
  simp only [Text.ofChars, CodePoint.ofByte, CodePoint.ofChar, toNat_ofNat valid, List.map_cons,
    List.map_nil]

/-- The text of a piece in UTF-8 is the bytes of the piece, or one byte longer. -/
theorem Piece.value_bytes {piece : Piece} {own : Bytes} (stands : piece.bytes? = some own) :
    ∃ chars, piece.value true = .ok (Text.ofChars chars) ∧
      (Utf8.encode chars).length = own.length + piece.isHighByte.toNat ∧
      (piece.isHighByte = false → Utf8.encode chars = own) := by
  have byte (n : Nat) : (Utf8.encode [Char.ofNat (n % 256)]).length =
        [UInt8.ofNat n].length + (decide (128 ≤ n % 256)).toNat ∧
      (decide (128 ≤ n % 256) = false →
        Utf8.encode [Char.ofNat (n % 256)] = [UInt8.ofNat n]) := by
    obtain ⟨length, low⟩ := encode_byte (Nat.mod_lt n (by decide : 0 < 256))
    refine ⟨length, fun isLow => ?_⟩
    have same : UInt8.ofNat (n % 256) = UInt8.ofNat n := by
      rw [← UInt8.toNat_inj]
      simp
    rw [low (Nat.lt_of_not_le (of_decide_eq_false isLow)), same]
  cases piece with
  | plain c =>
      obtain ⟨_, same, encoded⟩ := scalarBytes?_some stands
      exact ⟨_, congrArg Except.ok same, congrArg List.length encoded, fun _ => encoded⟩
  | simple letter value =>
      cases stands
      have encoded : Utf8.encode [value] = String.utf8EncodeChar value := List.flatMap_singleton ..
      refine ⟨[value], ?_, congrArg List.length encoded, fun _ => encoded⟩
      rw [Piece.value, Bool.not_true, Bool.and_false]
      rfl
  | octal digits =>
      cases stands
      exact ⟨_, congrArg Except.ok (ofByte_character _), byte _⟩
  | hex digits =>
      cases stands
      exact ⟨_, congrArg Except.ok (ofByte_character _), byte _⟩
  | point digits =>
      obtain ⟨inRange, same, encoded⟩ := scalarBytes?_some stands
      refine ⟨_, ?_, congrArg List.length encoded, fun _ => encoded⟩
      rw [Piece.value, codePoint, CodePoint.ofNat?, dif_pos inRange]
      exact congrArg Except.ok same

/-- The text of pieces in UTF-8 is longer than their bytes by the bytes beyond ASCII. -/
theorem mapM_value_bytes {row : List Piece} {owns : List Bytes}
    (stands : row.mapM Piece.bytes? = some owns) :
    ∃ texts : List (List Char), row.mapM (Piece.value true) = .ok (texts.map Text.ofChars) ∧
      (Utf8.encode texts.flatten).length = owns.flatten.length + row.countP Piece.isHighByte ∧
      (row.countP Piece.isHighByte = 0 → Utf8.encode texts.flatten = owns.flatten) := by
  induction row generalizing owns with
  | nil =>
      cases stands
      exact ⟨[], rfl, rfl, fun _ => rfl⟩
  | cons piece row inductionHypothesis =>
      rw [List.mapM_cons] at stands
      obtain ⟨own, ownStands, stands⟩ := Option.bind_eq_some_iff.mp stands
      obtain ⟨others, rowStands, stands⟩ := Option.bind_eq_some_iff.mp stands
      cases stands
      obtain ⟨chars, value, length, low⟩ := Piece.value_bytes ownStands
      obtain ⟨texts, values, lengths, lows⟩ := inductionHypothesis rowStands
      have count : (piece :: row).countP Piece.isHighByte =
          row.countP Piece.isHighByte + piece.isHighByte.toNat := by
        rw [List.countP_cons]
        cases piece.isHighByte <;> rfl
      refine ⟨chars :: texts, ?_, ?_, fun none => ?_⟩
      · rw [List.mapM_cons, value, values]
        rfl
      · rw [List.flatten_cons, Utf8.encode_append, List.length_append, List.flatten_cons,
          List.length_append, length, lengths, count]
        omega
      · rw [count] at none
        have isLow : piece.isHighByte = false := by
          rw [← Bool.toNat_eq_zero]
          omega
        rw [List.flatten_cons, Utf8.encode_append, low isLow, lows (by omega), List.flatten_cons]

/-- A body with bytes has a text. In UTF-8 it is one byte longer for each escape that gives a byte
beyond ASCII by its number, and it is the bytes of the body if there is no such escape. -/
theorem unescapeDouble_bytes {body : List Char} {bytes : Bytes} (stands : bytes? body = some bytes) :
    ∃ chars, unescapeDouble true (Text.ofChars body) = .ok (Text.ofChars chars) ∧
      (Utf8.encode chars).length =
        bytes.length + (pieces (Text.ofChars body)).countP Piece.isHighByte ∧
      (Utf8.encode chars = bytes ↔
        ∀ piece ∈ pieces (Text.ofChars body), piece.isHighByte = false) := by
  rw [bytes?_eq] at stands
  obtain ⟨owns, rowStands, rfl⟩ := Option.map_eq_some_iff.mp stands
  obtain ⟨texts, values, length, low⟩ := mapM_value_bytes rowStands
  refine ⟨texts.flatten, ?_, length, ?_⟩
  · rw [unescapeDouble, values]
    exact congrArg Except.ok (List.map_flatten ..).symm
  · have none : (pieces (Text.ofChars body)).countP Piece.isHighByte = 0 ↔
        ∀ piece ∈ pieces (Text.ofChars body), piece.isHighByte = false := by
      simp [List.countP_eq_zero]
    rw [← none]
    refine ⟨fun same => ?_, low⟩
    rw [same] at length
    omega

/-- A body with escapes of all kinds below 128, and with characters beyond ASCII. -/
theorem unescapeDouble_bytes_ascii :
    ∃ chars, unescapeDouble true (Text.ofString "é\\n\\101\\x41\\u\x7be9\x7d\\y") =
        .ok (Text.ofChars chars) ∧
      Utf8.encode chars = [0xC3, 0xA9, 0x0A, 0x41, 0x41, 0xC3, 0xA9, 0x5C, 0x79] := by
  have stands : bytes? "é\\n\\101\\x41\\u\x7be9\x7d\\y".toList =
      some [0xC3, 0xA9, 0x0A, 0x41, 0x41, 0xC3, 0xA9, 0x5C, 0x79] := by decide +kernel
  obtain ⟨chars, value, -, same⟩ := unescapeDouble_bytes stands
  exact ⟨chars, value, same.mpr (by decide +kernel)⟩

/-- Two bytes that form one character are read as two characters. -/
theorem unescapeDouble_bytes_joint :
    bytes? "\\xC3\\xA9".toList = some (Utf8.encode ['é']) ∧
      unescapeDouble true (Text.ofString "\\xC3\\xA9") = .ok (Text.ofChars ['Ã', '©']) ∧
      Utf8.encode ['Ã', '©'] ≠ Utf8.encode ['é'] := by
  decide +kernel

end Untranslated.Php.Literal
