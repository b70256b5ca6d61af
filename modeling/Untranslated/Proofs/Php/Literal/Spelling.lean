/-
This file proves that quoting a text and reading it again gives the text back.
In double quotes each character has a choice of spellings, and no two of them run together.
-/

import Untranslated.Proofs.Php.Literal.Pieces

namespace Untranslated.Php.Literal

/-- Backslashes are doubled, and a backslash stands in front of each quote. -/
def quoteSingle (text : Text) : Text :=
  text.flatMap fun c => if c.is '\\' || c.is '\'' then [backslash, c] else [c]

/-- A backslash in front of a quote or of another one is left out. -/
theorem unescapeSingle_escaped {c : CodePoint} (special : (c.is '\\' || c.is '\'') = true)
    (rest : Text) : unescapeSingle (backslash :: c :: rest) = c :: unescapeSingle rest := by
  rw [unescapeSingle, special]
  rfl

/-- Other characters stand for themselves. -/
theorem unescapeSingle_plain {c : CodePoint} (plain : c.is '\\' = false) (rest : Text) :
    unescapeSingle (c :: rest) = c :: unescapeSingle rest := by
  cases rest with
  | nil => rfl
  | cons d rest =>
      rw [unescapeSingle, plain]
      rfl

/-- A text that is put in single quotes is read back. -/
theorem unescapeSingle_quoteSingle (text : Text) : unescapeSingle (quoteSingle text) = text := by
  induction text with
  | nil => rfl
  | cons c rest inductionHypothesis =>
      rw [quoteSingle, List.flatMap_cons, ← quoteSingle]
      cases special : c.is '\\' || c.is '\'' with
      | true =>
          have escaped := unescapeSingle_escaped special (quoteSingle rest)
          rw [inductionHypothesis] at escaped
          exact escaped
      | false =>
          have plain := unescapeSingle_plain (Bool.or_eq_false_iff.mp special).1 (quoteSingle rest)
          rw [inductionHypothesis] at plain
          exact plain

/-- A digit below sixteen. A letter has two cases. -/
structure HexDigit where
  value : Fin 16
  upper : Bool

/-- A hexadecimal digit as it is written. -/
def HexDigit.character (digit : HexDigit) : CodePoint :=
  .ofChar (Char.ofNat (if digit.value < 10 then '0'.toNat + digit.value
    else (if digit.upper then 'A' else 'a').toNat + (digit.value - 10)))

/-- An octal digit as it is written. -/
def octalCharacter (digit : Fin 8) : CodePoint := .ofChar (Char.ofNat ('0'.toNat + digit))

/-- A hexadecimal digit has its value. -/
theorem digitValue?_character (digit : HexDigit) :
    digitValue? digit.character = some digit.value := by
  have all : ∀ (value : Fin 16) (upper : Bool),
      digitValue? (HexDigit.mk value upper).character = some value.val := by decide
  exact all digit.value digit.upper

theorem digitValue?_octal : ∀ digit : Fin 8, digitValue? (octalCharacter digit) = some digit.val := by
  decide

theorem isHexDigit_character (digit : HexDigit) : isHexDigit digit.character = true := by
  rw [isHexDigit, digitValue?_character]
  rfl

/-- An octal digit is known as one. -/
theorem isOctalDigit_octal (digit : Fin 8) : isOctalDigit (octalCharacter digit) = true := by
  rw [isOctalDigit, digitValue?_octal]
  exact decide_eq_true digit.isLt

/-- The number of digits, the most significant one first. -/
def hexNumber (digits : List HexDigit) : Nat :=
  Nat.ofDigits 16 (digits.map fun digit => digit.value.val).reverse

/-- Digits that are written are read as their number. -/
theorem number_hex (digits : List HexDigit) :
    number 16 (digits.map HexDigit.character) = hexNumber digits := by
  rw [number_eq, hexNumber, List.map_map]
  congr 3
  funext digit
  exact congrArg (Option.getD · 0) (digitValue?_character digit)

/-- The characters that an escape of two characters stands for, with its second character. -/
def shortEscapes : List (Char × Char) :=
  [('\n', 'n'), ('\t', 't'), ('\r', 'r'), ('\x0B', 'v'), ('\x1B', 'e'), ('\x0C', 'f'),
    ('\\', '\\'), ('$', '$'), ('"', '"')]

/-- The spellings of a character. -/
inductive Spelling : CodePoint → Type where
  | itself {c : CodePoint} (plain : c ≠ backslash) : Spelling c
  | short {shown letter : Char} (listed : (shown, letter) ∈ shortEscapes) : Spelling (.ofChar shown)
  | hex {c : CodePoint} (high low : HexDigit) (ascii : c.value < 128)
      (is : 16 * high.value.val + low.value.val = c.value) : Spelling c
  | octal {c : CodePoint} (first second third : Fin 8) (ascii : c.value < 128)
      (is : 64 * first.val + 8 * second.val + third.val = c.value) : Spelling c
  | point {c : CodePoint} (digits : List HexDigit) (filled : digits ≠ [])
      (is : hexNumber digits = c.value) : Spelling c

namespace Spelling

/-- A spelling as it is written. -/
def written {c : CodePoint} : Spelling c → Text
  | .itself _ => [c]
  | @short _ letter _ => [backslash, .ofChar letter]
  | .hex high low _ _ => [backslash, .ofChar 'x', high.character, low.character]
  | .octal first second third _ _ =>
    [backslash, octalCharacter first, octalCharacter second, octalCharacter third]
  | .point digits _ _ =>
    backslash :: .ofChar 'u' :: .ofChar '\x7b' ::
      (digits.map HexDigit.character ++ [.ofChar '\x7d'])

/-- Whether the character is a double quote behind a backslash. -/
def isEscapedQuote {c : CodePoint} : Spelling c → Bool
  | @short _ letter _ => letter == '"'
  | _ => false

/-- What is read of a spelling. Where quotes are not escaped, a quote keeps its backslash. -/
def shown {c : CodePoint} (escapesQuote : Bool) (spelling : Spelling c) : Text :=
  if spelling.isEscapedQuote && !escapesQuote then spelling.written else [c]

/-- The piece of a body that a spelling is. -/
def piece {c : CodePoint} : Spelling c → Piece
  | .itself _ => .plain c
  | @short shown letter _ => .simple (.ofChar letter) shown
  | .hex high low _ _ => .hex [high.character, low.character]
  | .octal first second third _ _ =>
    .octal [octalCharacter first, octalCharacter second, octalCharacter third]
  | .point digits _ _ => .point (digits.map HexDigit.character)

end Spelling

theorem simpleEscape?_listed : ∀ entry ∈ shortEscapes,
    simpleEscape? (.ofChar entry.2) = some entry.1 := by decide

theorem simpleEscape?_octal : ∀ digit : Fin 8, simpleEscape? (octalCharacter digit) = none := by
  decide

/-- A spelling is one piece, whatever follows. -/
theorem Spelling.pieces_written {c : CodePoint} (spelling : Spelling c) (rest : Text) :
    pieces (spelling.written ++ rest) = spelling.piece :: pieces rest := by
  have escaped (unit : Text) {piece : Piece} (found : escape? (unit ++ rest) = some piece)
      (size : piece.size = unit.length + 1) :
      pieces (backslash :: unit ++ rest) = piece :: pieces rest :=
    pieces_unit unit (by rw [pieceAt_backslash, found]; rfl) size
  cases spelling with
  | itself plain => exact pieces_plain plain rest
  | @short shown letter listed =>
      refine escaped [_] ?_ rfl
      rw [List.singleton_append, escape?_cons, simpleEscape?_listed _ listed]
      rfl
  | hex high low ascii is =>
      refine escaped [_, _, _] ?_ rfl
      have none : simpleEscape? (.ofChar 'x') = none := rfl
      have noOctal : isOctalDigit (.ofChar 'x') = false := rfl
      have digits : ((high.character :: low.character :: rest).takeWhile isHexDigit).take 2 =
          [high.character, low.character] := by
        simp [isHexDigit_character]
      simp only [List.cons_append, List.nil_append, escape?_cons, none, noOctal, digits, is_ofChar,
        decide_true, if_true, Bool.false_eq_true, if_false]
      rfl
  | octal first second third ascii is =>
      refine escaped [_, _, _] ?_ rfl
      simp [escape?_cons, simpleEscape?_octal, isOctalDigit_octal, piece]
  | point digits filled is =>
      have all : ∀ c ∈ digits.map HexDigit.character, isHexDigit c = true := by
        intro c member
        obtain ⟨digit, -, rfl⟩ := List.mem_map.mp member
        exact isHexDigit_character digit
      obtain ⟨taken, braces⟩ := bracesDigits_written (by simpa using filled) all rest
      refine escaped (_ :: _ :: (_ ++ [_])) ?_ ?_
      · have none : simpleEscape? (.ofChar 'u') = none := rfl
        have noOctal : isOctalDigit (.ofChar 'u') = false := rfl
        simp only [List.cons_append, List.append_assoc, List.nil_append, escape?_cons, none, noOctal,
          taken, braces, is_ofChar, Bool.and_true, decide_true, if_true, Bool.false_eq_true, if_false]
        rfl
      · simp only [piece, Piece.size, List.length_cons, List.length_append, List.length_nil]
        omega

/-- A byte in ASCII is the character of its number. -/
theorem ofByte_eq {n : Nat} {c : CodePoint} (is : n = c.value) (ascii : c.value < 128) :
    CodePoint.ofByte n = c := by
  cases c
  simp only at is ascii
  simp only [CodePoint.ofByte, CodePoint.mk.injEq]
  omega

/-- The piece of a spelling is read to its character. -/
theorem Spelling.piece_value {c : CodePoint} (spelling : Spelling c) (escapesQuote : Bool) :
    spelling.piece.value escapesQuote = .ok (spelling.shown escapesQuote) := by
  cases spelling with
  | itself plain => rfl
  | @short shown letter listed =>
      simp only [piece, Piece.value, Spelling.shown, isEscapedQuote, written, is_ofChar, beq_eq_decide]
      split <;> rfl
  | hex high low ascii is =>
      have same : number 16 [high.character, low.character] = c.value := by
        simpa [number, digitValue?_character] using is
      simp only [piece, Piece.value, ofByte_eq same ascii]
      rfl
  | octal first second third ascii is =>
      have same : number 8 [octalCharacter first, octalCharacter second, octalCharacter third] =
          c.value := by
        simp only [number, digitValue?_octal, List.foldl_cons, List.foldl_nil, Option.getD_some]
        omega
      simp only [piece, Piece.value, ofByte_eq same ascii]
      rfl
  | point digits filled is =>
      simp only [piece, Piece.value, number_hex, is, codePoint, CodePoint.ofNat?, dif_pos c.inRange]
      rfl

/-- A character with its spelling. -/
structure Spelled where
  character : CodePoint
  spelling : Spelling character

/-- The characters of a row. -/
def characters (row : List Spelled) : Text := row.map (·.character)

/-- A spelling as it is written. -/
def written (row : List Spelled) : Text := row.flatMap (·.spelling.written)

/-- A row is read spelling by spelling. -/
theorem pieces_written (row : List Spelled) : pieces (written row) = row.map (·.spelling.piece) := by
  induction row with
  | nil => rfl
  | cons spelled row inductionHypothesis =>
      rw [written, List.flatMap_cons, ← written, Spelling.pieces_written, inductionHypothesis]
      rfl

/-- Pieces with values are read one by one. -/
theorem mapM_value_ok {escapesQuote : Bool} {A : Type} {piece : A → Piece} {shown : A → Text}
    (values : ∀ a, (piece a).value escapesQuote = .ok (shown a)) (row : List A) :
    (row.map piece).mapM (Piece.value escapesQuote) = .ok (row.map shown) := by
  induction row with
  | nil => rfl
  | cons a row inductionHypothesis =>
      rw [List.map_cons, List.mapM_cons, values, inductionHypothesis]
      rfl

/-- A written row is read character by character. -/
theorem unescapeDouble_written (escapesQuote : Bool) (row : List Spelled) :
    unescapeDouble escapesQuote (written row) =
      .ok (row.flatMap (·.spelling.shown escapesQuote)) := by
  rw [unescapeDouble, pieces_written,
    mapM_value_ok fun spelled => spelled.spelling.piece_value escapesQuote]
  rfl

/-- Without escaped quotes a row is read to its characters. -/
theorem flatMap_shown {escapesQuote : Bool} {row : List Spelled}
    (single : ∀ spelled ∈ row,
      (spelled.spelling.isEscapedQuote && !escapesQuote) = false) :
    row.flatMap (·.spelling.shown escapesQuote) = characters row := by
  induction row with
  | nil => rfl
  | cons spelled row inductionHypothesis =>
      rw [List.flatMap_cons, Spelling.shown, single spelled List.mem_cons_self,
        inductionHypothesis fun other member => single other (List.mem_cons_of_mem _ member)]
      rfl

/-- The pieces of two bodies in a row are read one after the other. -/
theorem unescapeDouble_append {escapesQuote : Bool} {body before after : Text}
    (divided : pieces body = pieces before ++ pieces after) :
    unescapeDouble escapesQuote body = do
      let front ← unescapeDouble escapesQuote before
      let back ← unescapeDouble escapesQuote after
      return front ++ back := by
  simp only [unescapeDouble, divided, List.mapM_append]
  cases (pieces before).mapM (Piece.value escapesQuote) with
  | error e => rfl
  | ok front =>
      cases (pieces after).mapM (Piece.value escapesQuote) with
      | error e => rfl
      | ok back => exact congrArg Except.ok List.flatten_append

/-- Where quotes are not escaped, a quote behind a backslash that the scan meets is kept with it. -/
theorem unescapeDouble_keptQuote {front : Text} (closed : ¬EndsOpen front) (rest : Text) :
    unescapeDouble false (front ++ backslash :: .ofChar '"' :: rest) = do
      let before ← unescapeDouble false front
      let after ← unescapeDouble false rest
      return before ++ backslash :: .ofChar '"' :: after := by
  have quote : pieces (backslash :: .ofChar '"' :: rest) = .simple (.ofChar '"') '"' :: pieces rest :=
    pieces_unit [.ofChar '"'] rfl rfl
  have kept : Piece.value false (.simple (.ofChar '"') '"') = .ok [backslash, .ofChar '"'] := rfl
  rw [unescapeDouble_append (pieces_append closed _)]
  simp only [unescapeDouble, quote, List.mapM_cons, kept]
  cases (pieces rest).mapM (Piece.value false) <;>
    cases (pieces front).mapM (Piece.value false) <;> rfl

/-- A quoted text is read as the text. In single quotes the backslashes and the quotes are escaped.
In double quotes each character has any of its spellings. In a document too, save that a backslash
in front of a quote is kept. -/
theorem unescape_quoted :
    (∀ text, unescapeSingle (quoteSingle text) = text) ∧
      (∀ row, unescapeDouble true (written row) = .ok (characters row)) ∧
      (∀ row, (∀ spelled ∈ row, spelled.spelling.isEscapedQuote = false) →
        unescapeDouble false (written row) = .ok (characters row)) ∧
      ∀ front rest, ¬EndsOpen front →
        unescapeDouble false (front ++ backslash :: .ofChar '"' :: rest) = do
          let before ← unescapeDouble false front
          let after ← unescapeDouble false rest
          return before ++ backslash :: .ofChar '"' :: after := by
  refine ⟨unescapeSingle_quoteSingle, fun row => ?_, fun row unquoted => ?_,
    fun front rest closed => unescapeDouble_keptQuote closed rest⟩
  · rw [unescapeDouble_written, flatMap_shown fun _ _ => Bool.and_false _]
  · rw [unescapeDouble_written, flatMap_shown]
    exact fun spelled member => Bool.and_eq_false_imp.mpr fun quote =>
      absurd (unquoted spelled member) (by rw [quote]; decide)

/-- A row with spellings of all kinds, and characters that could continue the ones before. -/
def mixedRow : List Spelled := [
  ⟨_, @Spelling.short '\n' 'n' (by decide)⟩,
  ⟨.ofChar 'A', .hex ⟨4, false⟩ ⟨1, false⟩ (by decide) (by decide)⟩,
  ⟨.ofChar '1', .itself (by decide)⟩,
  ⟨.ofChar 'A', .octal 1 0 1 (by decide) (by decide)⟩,
  ⟨.ofChar '7', .itself (by decide)⟩,
  ⟨_, @Spelling.short '\\' '\\' (by decide)⟩,
  ⟨.ofChar 'é', .point [⟨0, false⟩, ⟨14, true⟩, ⟨9, false⟩] (by decide) (by decide)⟩]

/-- The row is read to its characters in both modes. -/
theorem unescape_quoted_mixedRow :
    written mixedRow = Text.ofString "\\n\\x411\\1017\\\\\\u\x7b0E9\x7d" ∧
      (∀ spelled ∈ mixedRow, spelled.spelling.isEscapedQuote = false) ∧
      unescapeDouble true (written mixedRow) = .ok (Text.ofString "\nA1A7\\é") ∧
      unescapeDouble false (written mixedRow) = .ok (Text.ofString "\nA1A7\\é") ∧
      ¬EndsOpen (written mixedRow) ∧
      unescapeDouble false (written mixedRow ++ backslash :: .ofChar '"' :: []) =
        .ok (Text.ofString "\nA1A7\\é\\\"") := by
  have unquoted : ∀ spelled ∈ mixedRow, spelled.spelling.isEscapedQuote = false := by decide
  have closed : ¬EndsOpen (written mixedRow) := by
    rw [EndsOpen, pieces_written]
    decide
  obtain ⟨-, double, document, kept⟩ := unescape_quoted
  have plain := document mixedRow unquoted
  refine ⟨by decide, unquoted, double mixedRow, plain, closed, ?_⟩
  rw [kept _ [] closed, plain]
  rfl

end Untranslated.Php.Literal
