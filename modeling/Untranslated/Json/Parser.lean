/-
This file reads JSON. Each error has its cause and its place in the text.
-/

import Untranslated.Json.Value

namespace Untranslated.Json

open Decimal (Binary64)

/-- Why a text cannot be read. -/
inductive Cause where
  | expectingValue
  | expectingName
  | expectingColon
  | expectingComma
  | extraData
  | unterminatedString
  | controlCharacter
  | invalidEscape
  | invalidUnicodeEscape
  | byteOrderMark
  | integerTooLong
deriving DecidableEq

def Cause.message : Cause → String
  | .expectingValue => "Expecting value"
  | .expectingName => "Expecting property name enclosed in double quotes"
  | .expectingColon => "Expecting ':' delimiter"
  | .expectingComma => "Expecting ',' delimiter"
  | .extraData => "Extra data"
  | .unterminatedString => "Unterminated string starting at"
  | .controlCharacter => "Invalid control character at"
  | .invalidEscape => "Invalid \\escape"
  | .invalidUnicodeEscape => "Invalid \\uXXXX escape"
  | .byteOrderMark => "Unexpected UTF-8 BOM (decode using utf-8-sig)"
  | .integerTooLong => "Exceeds the limit for integer string conversion"

/-- A cause with its place. -/
structure ParseError where
  cause : Cause
  position : Nat
deriving DecidableEq

/-- The place is shown as a line, a column and an offset in characters. -/
def ParseError.message (source : List Char) (e : ParseError) : String :=
  let before := source.take e.position
  let line := before.count '\n' + 1
  let column := (before.reverse.takeWhile (· != '\n')).length + 1
  s!"{e.cause.message}: line {line} column {column} (char {e.position})"

/-- What is left of the text, and how much of it was read. -/
structure Cursor where
  position : Nat
  rest : List Char

namespace Cursor

def advance (cursor : Cursor) (count : Nat) : Cursor :=
  ⟨cursor.position + count, cursor.rest.drop count⟩

def isSpace (c : Char) : Bool := c == ' ' || c == '\t' || c == '\n' || c == '\r'

def skipSpace (cursor : Cursor) : Cursor :=
  cursor.advance (cursor.rest.takeWhile isSpace).length

def fail {A : Type} (cursor : Cursor) (cause : Cause) : Except ParseError A :=
  .error ⟨cause, cursor.position⟩

end Cursor

def hexValue? (c : Char) : Option Nat :=
  if '0' ≤ c && c ≤ '9' then some (c.toNat - 48)
  else if 'a' ≤ c && c ≤ 'f' then some (c.toNat - 87)
  else if 'A' ≤ c && c ≤ 'F' then some (c.toNat - 55)
  else none

/-- Four hexadecimal digits. One more character has to follow them. -/
def fourDigits? (cs : List Char) : Option Nat :=
  match cs with
  | a :: b :: c :: d :: _ :: _ => do
    let a ← hexValue? a
    let b ← hexValue? b
    let c ← hexValue? c
    let d ← hexValue? d
    return ((a * 16 + b) * 16 + c) * 16 + d
  | _ => none

def simpleEscape? : Char → Option Char
  | '"' => some '"'
  | '\\' => some '\\'
  | '/' => some '/'
  | 'b' => some '\x08'
  | 'f' => some '\x0c'
  | 'n' => some '\n'
  | 'r' => some '\r'
  | 't' => some '\t'
  | _ => none

def isHighSurrogate (n : Nat) : Bool := 0xD800 ≤ n && n ≤ 0xDBFF

def isLowSurrogate (n : Nat) : Bool := 0xDC00 ≤ n && n ≤ 0xDFFF

/-- The text of a number that is a code point. -/
def point (n : Nat) : Text := (CodePoint.ofNat? n).toList

/-- The code point of an escape after its `u`, and how many characters it takes. A high surrogate
takes a low one with it. -/
def unicodeEscape (cursor : Cursor) : Except ParseError (Text × Nat) :=
  match fourDigits? cursor.rest with
  | none => .error ⟨.invalidUnicodeEscape, cursor.position - 1⟩
  | some high =>
    let later := cursor.rest.drop 4
    if isHighSurrogate high && 7 ≤ later.length && later.take 2 == ['\\', 'u'] then
      match fourDigits? (later.drop 2) with
      | none => .error ⟨.invalidUnicodeEscape, cursor.position + 5⟩
      | some low =>
        if isLowSurrogate low then
          .ok (point (0x10000 + (high - 0xD800) * 0x400 + (low - 0xDC00)), 10)
        else .ok (point high, 4)
    else .ok (point high, 4)

/-- The characters of a string up to its closing quote. The start is the place of the opening
quote. -/
def stringBody (start : Nat) : Nat → Cursor → Except ParseError (Text × Cursor)
  | 0, _ => .error ⟨.unterminatedString, start⟩
  | fuel + 1, cursor =>
    match cursor.rest with
    | [] => .error ⟨.unterminatedString, start⟩
    | '"' :: _ => .ok ([], cursor.advance 1)
    | ['\\'] => .error ⟨.unterminatedString, start⟩
    | '\\' :: 'u' :: _ => do
      let (read, size) ← unicodeEscape (cursor.advance 2)
      let (later, last) ← stringBody start fuel (cursor.advance (2 + size))
      return (read ++ later, last)
    | '\\' :: c :: _ =>
      match simpleEscape? c with
      | none => cursor.fail .invalidEscape
      | some plain => do
        let (later, last) ← stringBody start fuel (cursor.advance 2)
        return (CodePoint.ofChar plain :: later, last)
    | c :: _ =>
      if c.toNat < 0x20 then cursor.fail .controlCharacter
      else do
        let (later, last) ← stringBody start fuel (cursor.advance 1)
        return (CodePoint.ofChar c :: later, last)

def isDigit (c : Char) : Bool := '0' ≤ c && c ≤ '9'

/-- The number of decimal digits. -/
def digitsValue (cs : List Char) : Nat := cs.foldl (fun n c => 10 * n + (c.toNat - 48)) 0

/-- Longer integers are refused. -/
def integerDigitLimit : Nat := 4300

/-- The fraction after a whole part, if a digit follows the point. -/
def fraction (cs : List Char) : List Char :=
  match cs with
  | '.' :: rest => rest.takeWhile isDigit
  | _ => []

/-- The exponent of a number, its sign included, and its length. -/
def exponent? (cs : List Char) : Option (Int × Nat) :=
  match cs with
  | mark :: rest =>
    if mark == 'e' || mark == 'E' then
      let (sign, digits) :=
        match rest with
        | '-' :: digits => (some true, digits)
        | '+' :: digits => (some false, digits)
        | digits => (none, digits)
      let read := digits.takeWhile isDigit
      let magnitude : Int := digitsValue read
      if read.isEmpty then none
      else
        some (if sign == some true then -magnitude else magnitude,
          1 + (if sign.isSome then 1 else 0) + read.length)
    else none
  | [] => none

/-- The whole part has no leading zero. -/
def wholePart (cs : List Char) : List Char :=
  match cs with
  | '0' :: _ => ['0']
  | other => other.takeWhile isDigit

def number (cursor : Cursor) : Except ParseError (Value × Cursor) :=
  let negative := cursor.rest.head? == some '-'
  let unsigned := if negative then cursor.rest.drop 1 else cursor.rest
  let whole := wholePart unsigned
  if whole.isEmpty then cursor.fail .expectingValue
  else
    let afterWhole := unsigned.drop whole.length
    let part := fraction afterWhole
    let partSize := if part.isEmpty then 0 else 1 + part.length
    let scale := exponent? (afterWhole.drop partSize)
    let size := (if negative then 1 else 0) + whole.length + partSize +
      (scale.map (·.2)).getD 0
    if part.isEmpty && scale.isNone then
      if integerDigitLimit < whole.length then cursor.fail .integerTooLong
      else
        let magnitude : Int := digitsValue whole
        .ok (.integer (if negative then -magnitude else magnitude), cursor.advance size)
    else
      .ok (.real (Binary64.ofDecimal negative (digitsValue (whole ++ part))
        ((scale.map (·.1)).getD 0 - part.length)), cursor.advance size)

def constants : List (String × Value) :=
  [("null", .null), ("true", .bool true), ("false", .bool false),
    ("NaN", .real .notANumber), ("Infinity", .real (.infinite false)),
    ("-Infinity", .real (.infinite true))]

def constant? (cs : List Char) : Option (Value × Nat) :=
  (constants.find? fun (word, _) => word.toList.isPrefixOf cs).map
    fun (word, value) => (value, word.length)

mutual

/-- One value, which begins where the cursor is. -/
def value : Nat → Cursor → Except ParseError (Value × Cursor)
  | 0, cursor => cursor.fail .expectingValue
  | fuel + 1, cursor =>
    match cursor.rest with
    | '"' :: _ => do
      let (text, last) ← stringBody cursor.position (cursor.rest.length + 1) (cursor.advance 1)
      return (.string text, last)
    | '[' :: _ =>
      let first := (cursor.advance 1).skipSpace
      match first.rest with
      | ']' :: _ => .ok (.array [], first.advance 1)
      | _ => do
        let (items, last) ← items fuel first
        return (.array items, last)
    | '\x7b' :: _ =>
      let first := (cursor.advance 1).skipSpace
      match first.rest with
      | '\x7d' :: _ => .ok (.object [], first.advance 1)
      | _ => do
        let (members, last) ← members fuel first []
        return (.object members, last)
    | rest =>
      match constant? rest with
      | some (constant, size) => .ok (constant, cursor.advance size)
      | none => number cursor

/-- The items of an array up to its closing bracket. -/
def items : Nat → Cursor → Except ParseError (List Value × Cursor)
  | 0, cursor => cursor.fail .expectingValue
  | fuel + 1, cursor => do
    let (first, next) ← value fuel cursor
    let next := next.skipSpace
    match next.rest with
    | ']' :: _ => return ([first], next.advance 1)
    | ',' :: _ =>
      let (later, last) ← items fuel (next.advance 1).skipSpace
      return (first :: later, last)
    | _ => next.fail .expectingComma

/-- The members of an object up to its closing brace. -/
def members : Nat → Cursor → List (Text × Value) → Except ParseError (List (Text × Value) × Cursor)
  | 0, cursor, _ => cursor.fail .expectingName
  | fuel + 1, cursor, known => do
    match cursor.rest with
    | '"' :: _ =>
      let (name, next) ← stringBody cursor.position (cursor.rest.length + 1) (cursor.advance 1)
      let next := next.skipSpace
      match next.rest with
      | ':' :: _ =>
        let (read, next) ← value fuel (next.advance 1).skipSpace
        let known := Value.insert known name read
        let next := next.skipSpace
        match next.rest with
        | '\x7d' :: _ => return (known, next.advance 1)
        | ',' :: _ => members fuel (next.advance 1).skipSpace known
        | _ => next.fail .expectingComma
      | _ => next.fail .expectingColon
    | _ => cursor.fail .expectingName

end

/-- The whole text is one value between white space. -/
def parseWithin (fuel : Nat) (source : List Char) : Except ParseError Value :=
  if source.head? == some '\uFEFF' then .error ⟨.byteOrderMark, 0⟩
  else do
    let (read, last) ← value fuel (Cursor.skipSpace ⟨0, source⟩)
    let last := last.skipSpace
    if last.rest.isEmpty then return read else last.fail .extraData

/-- Each bracket takes two steps, one for the value and one for what is inside. -/
def parse (source : List Char) : Except ParseError Value :=
  parseWithin (2 * source.length + 1) source

end Untranslated.Json
