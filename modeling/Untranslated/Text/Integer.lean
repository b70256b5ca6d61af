/-
This file reads integers from texts.
-/

import Untranslated.Text.Blank
import Untranslated.Text.Digit

namespace Untranslated.Text

/-- Numbers with more digits are not read. -/
def integerDigitLimit : Nat := 4300

def isAscii (c : CodePoint) : Bool := c.value < 0x80

/-- In a text of ASCII characters alone the separator controls are no blanks. -/
def isNumberBlank (onlyAscii : Bool) (c : CodePoint) : Bool :=
  isBlank c && !(onlyAscii && 0x1C ≤ c.value && c.value ≤ 0x1F)

/-- Digits with single underscores between them. -/
def ungrouped? : Text → Option Text
  | [] => none
  | [c] => if c.is '_' then none else some [c]
  | c :: d :: rest =>
    if c.is '_' then none
    else if d.is '_' then (ungrouped? rest).map (c :: ·)
    else (ungrouped? (d :: rest)).map (c :: ·)

def natural? (t : Text) : Option Nat := do
  let digits ← ungrouped? t
  if integerDigitLimit < digits.length then none else decimal? digits

/-- A number may have a sign in front and blanks around it. -/
def integer? (t : Text) : Option Int :=
  match trim (isNumberBlank (t.all isAscii)) t with
  | [] => none
  | c :: rest =>
    if c.is '-' then (natural? rest).map fun n => -(n : Int)
    else if c.is '+' then (natural? rest).map Int.ofNat
    else (natural? (c :: rest)).map Int.ofNat

end Untranslated.Text
