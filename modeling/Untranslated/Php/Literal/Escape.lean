/-
This file decodes the escapes of quoted text.
A body is divided into pieces first: characters as they stand and escapes.
-/

import Untranslated.Text.CodePoint

namespace Untranslated.Php.Literal

/-- An escape of a code point can name a number beyond the last one. A number of more than 31 bits
is a fault of its own. -/
inductive EscapeError where
  | beyondUnicode
  | beyondInteger
deriving DecidableEq

/-- The characters after a backslash that stand for one character, with that character. -/
def simpleEscapes : List (Char × Char) :=
  [('n', '\n'), ('t', '\t'), ('r', '\r'), ('v', '\x0B'), ('e', '\x1B'), ('f', '\x0C'),
    ('\\', '\\'), ('$', '$'), ('"', '"')]

def simpleEscape? (c : CodePoint) : Option Char :=
  (simpleEscapes.find? fun (letter, _) => c.is letter).map (·.2)

/-- The value of a digit below sixteen, in either case. -/
def digitValue? (c : CodePoint) : Option Nat :=
  let n := c.value
  if 48 ≤ n && n ≤ 57 then some (n - 48)
  else if 97 ≤ n && n ≤ 102 then some (n - 87)
  else if 65 ≤ n && n ≤ 70 then some (n - 55)
  else none

def isHexDigit (c : CodePoint) : Bool := (digitValue? c).isSome

def isOctalDigit (c : CodePoint) : Bool := (digitValue? c).any (· < 8)

/-- The number that digits spell in a base, most significant first. -/
def number (base : Nat) (digits : Text) : Nat :=
  digits.foldl (fun n c => base * n + (digitValue? c).getD 0) 0

/-- A piece of a body. An escaped quote is told from the other escapes, for it is none in a
heredoc. -/
inductive Piece where
  | plain (c : CodePoint)
  | simple (letter : CodePoint) (value : Char)
  | octal (digits : Text)
  | hex (digits : Text)
  | point (digits : Text)
deriving DecidableEq

/-- The number of characters of a piece. -/
def Piece.size : Piece → Nat
  | .plain _ => 1
  | .simple _ _ => 2
  | .octal digits => 1 + digits.length
  | .hex digits => 2 + digits.length
  | .point digits => 4 + digits.length

/-- The escape that follows a backslash, if there is one. -/
def escape? : Text → Option Piece
  | [] => none
  | c :: rest =>
    match simpleEscape? c with
    | some value => some (.simple c value)
    | none =>
      if isOctalDigit c then some (.octal (((c :: rest).takeWhile isOctalDigit).take 3))
      else if c.is 'x' then
        match (rest.takeWhile isHexDigit).take 2 with
        | [] => none
        | digits => some (.hex digits)
      else if c.is 'u' && rest.head?.any (·.is '\x7b') then
        let digits := (rest.drop 1).takeWhile isHexDigit
        if !digits.isEmpty && (rest.drop (1 + digits.length)).head?.any (·.is '\x7d') then
          some (.point digits)
        else none
      else none

/-- A backslash that begins no escape stands for itself. -/
def pieceAt (c : CodePoint) (rest : Text) : Piece :=
  if c.is '\\' then (escape? rest).getD (.plain c) else .plain c

/-- The pieces after so many characters, which belong to a piece already. -/
def piecesAfter : Nat → Text → List Piece
  | _, [] => []
  | skipped + 1, _ :: rest => piecesAfter skipped rest
  | 0, c :: rest => pieceAt c rest :: piecesAfter ((pieceAt c rest).size - 1) rest

/-- The pieces of a body from left to right. -/
def pieces (body : Text) : List Piece := piecesAfter 0 body

/-- The greatest number of 31 bits. -/
def integerLimit : Nat := 0x7FFFFFFF

def codePoint (n : Nat) : Except EscapeError Text :=
  match CodePoint.ofNat? n with
  | some c => .ok [c]
  | none => .error (if n ≤ integerLimit then .beyondUnicode else .beyondInteger)

/-- The text that a piece stands for. Octal numbers count modulo 256. Where quotes are not escaped,
a backslash in front of one is kept. -/
def Piece.value (escapesQuote : Bool) : Piece → Except EscapeError Text
  | .plain c => .ok [c]
  | .simple letter value =>
    if letter.is '"' && !escapesQuote then .ok [CodePoint.ofChar '\\', letter]
    else .ok [CodePoint.ofChar value]
  | .octal digits => .ok [CodePoint.ofByte (number 8 digits)]
  | .hex digits => .ok [CodePoint.ofByte (number 16 digits)]
  | .point digits => codePoint (number 16 digits)

/-- The text of the body of a quoted text with escapes. The first oversized escape is the fault. -/
def unescapeDouble (escapesQuote : Bool) (body : Text) : Except EscapeError Text :=
  ((pieces body).mapM (Piece.value escapesQuote)).map List.flatten

/-- In single quotes a backslash escapes a backslash or a quote, and nothing else. -/
def unescapeSingle : Text → Text
  | [] => []
  | [c] => [c]
  | c :: d :: rest =>
    if c.is '\\' && (d.is '\\' || d.is '\'') then d :: unescapeSingle rest
    else c :: unescapeSingle (d :: rest)

end Untranslated.Php.Literal
