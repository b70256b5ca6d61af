/-
This file defines the UTF-8 form of a text, its strict and its replacing reading, and the column
of a byte.
-/

import Untranslated.Text.CodePoint

namespace Untranslated.Utf8

abbrev Bytes := List UInt8

def encode (cs : List Char) : Bytes := cs.flatMap String.utf8EncodeChar

inductive Fault where
  | invalidStart
  | invalidContinuation
  | unexpectedEnd
deriving DecidableEq

def Fault.reason : Fault → String
  | .invalidStart => "invalid start byte"
  | .invalidContinuation => "invalid continuation byte"
  | .unexpectedEnd => "unexpected end of data"

/-- One step reads a character or a faulty stretch. Both give their length in bytes. -/
inductive Step where
  | char (c : Char) (size : Nat)
  | fault (fault : Fault) (size : Nat)

def Step.size : Step → Nat
  | .char _ size => size
  | .fault _ size => size

def isContinuation (b : UInt8) : Bool := 0x80 ≤ b && b < 0xC0

def payload (b : UInt8) : Nat := b.toNat % 0x40

/-- The second byte decides whether a form is overlong, a surrogate or beyond the last code
point. -/
def admitsSecond (lead second : UInt8) : Bool :=
  isContinuation second &&
    !(lead == 0xE0 && second < 0xA0) && !(lead == 0xED && second ≥ 0xA0) &&
    !(lead == 0xF0 && second < 0x90) && !(lead == 0xF4 && second ≥ 0x90)

/-- The number of bytes that a lead byte announces, zero for a byte that leads nothing. -/
def announced (lead : UInt8) : Nat :=
  if lead < 0x80 then 1
  else if lead < 0xC2 then 0
  else if lead < 0xE0 then 2
  else if lead < 0xF0 then 3
  else if lead < 0xF5 then 4
  else 0

/-- A fault covers the bytes that could still begin a character. At the end of the data it covers
what is left. -/
def step (lead : UInt8) (rest : Bytes) : Step :=
  match announced lead, rest with
  | 1, _ => .char (Char.ofNat lead.toNat) 1
  | 2, [] => .fault .unexpectedEnd 1
  | 2, b :: _ =>
    if isContinuation b then .char (Char.ofNat (lead.toNat % 0x20 * 0x40 + payload b)) 2
    else .fault .invalidContinuation 1
  | 3, [] => .fault .unexpectedEnd 1
  | 3, [b] => if admitsSecond lead b then .fault .unexpectedEnd 2 else .fault .invalidContinuation 1
  | 3, b :: c :: _ =>
    if !admitsSecond lead b then .fault .invalidContinuation 1
    else if !isContinuation c then .fault .invalidContinuation 2
    else .char (Char.ofNat ((lead.toNat % 0x10 * 0x40 + payload b) * 0x40 + payload c)) 3
  | 4, [] => .fault .unexpectedEnd 1
  | 4, [b] => if admitsSecond lead b then .fault .unexpectedEnd 2 else .fault .invalidContinuation 1
  | 4, [b, c] =>
    if !admitsSecond lead b then .fault .invalidContinuation 1
    else if !isContinuation c then .fault .invalidContinuation 2
    else .fault .unexpectedEnd 3
  | 4, b :: c :: d :: _ =>
    if !admitsSecond lead b then .fault .invalidContinuation 1
    else if !isContinuation c then .fault .invalidContinuation 2
    else if !isContinuation d then .fault .invalidContinuation 3
    else
      .char (Char.ofNat
        (((lead.toNat % 0x8 * 0x40 + payload b) * 0x40 + payload c) * 0x40 + payload d)) 4
  | _, _ => .fault .invalidStart 1

/-- A decoding error names the faulty stretch and its first byte. -/
structure DecodeError where
  position : Nat
  size : Nat
  first : UInt8
  fault : Fault
deriving DecidableEq

def hexDigits (b : UInt8) : String :=
  let digit (n : Nat) : Char := if n < 10 then Char.ofNat (48 + n) else Char.ofNat (87 + n)
  String.ofList [digit (b.toNat / 16), digit (b.toNat % 16)]

def DecodeError.message (e : DecodeError) : String :=
  let place :=
    if e.size == 1 then s!"byte 0x{hexDigits e.first} in position {e.position}"
    else s!"bytes in position {e.position}-{e.position + e.size - 1}"
  s!"'utf-8' codec can't decode {place}: {e.fault.reason}"

def decodeFrom (position : Nat) : Nat → Bytes → Except DecodeError (List Char)
  | 0, _ => .ok []
  | _ + 1, [] => .ok []
  | fuel + 1, lead :: rest =>
    match step lead rest with
    | .fault fault size => .error ⟨position, size, lead, fault⟩
    | .char c size => do
      let later ← decodeFrom (position + size) fuel (rest.drop (size - 1))
      return c :: later

/-- The strict reading stops at the first fault. -/
def decode (bytes : Bytes) : Except DecodeError (List Char) :=
  decodeFrom 0 bytes.length bytes

def decodeReplacingFrom : Nat → Bytes → List Char
  | 0, _ => []
  | _ + 1, [] => []
  | fuel + 1, lead :: rest =>
    match step lead rest with
    | .fault _ size => '\uFFFD' :: decodeReplacingFrom fuel (rest.drop (size - 1))
    | .char c size => c :: decodeReplacingFrom fuel (rest.drop (size - 1))

/-- The replacing reading shows each faulty stretch as one replacement character. -/
def decodeReplacing (bytes : Bytes) : List Char := decodeReplacingFrom bytes.length bytes

/-- In this encoding each byte is the character of the same number. -/
def decodeLatin1 (bytes : Bytes) : List Char := bytes.map fun b => Char.ofNat b.toNat

/-- What follows the last occurrence of a value, or everything. -/
def afterLast {A : Type} [BEq A] (mark : A) (values : List A) : List A :=
  (values.reverse.takeWhile (· != mark)).reverse

/-- The column of a byte counts the characters before it on its line, and starts at one. -/
def column (bytes : Bytes) (offset : Nat) : Nat :=
  (decodeReplacing (afterLast 10 (bytes.take offset))).length + 1

end Untranslated.Utf8
