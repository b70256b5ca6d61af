/-
This file defines the quoted form of a text, as messages show it.
-/

import Untranslated.Text.Printable

namespace Untranslated.Text

def hexDigit (n : Nat) : Char :=
  if n % 16 < 10 then Char.ofNat (48 + n % 16) else Char.ofNat (87 + n % 16)

/-- The last digits of a number in base sixteen. -/
def hexText (width n : Nat) : String :=
  String.ofList ((List.range width).reverse.map fun place => hexDigit (n / Nat.pow 16 place))

/-- The quote mark and the backslash are escaped, and so is all that cannot be shown. -/
def quotedPoint (quote : Char) (c : CodePoint) : Text :=
  let n := c.value
  if c = CodePoint.ofChar quote || c = CodePoint.ofChar '\\' then
    [CodePoint.ofChar '\\', c]
  else if n == 9 then "\\t"
  else if n == 10 then "\\n"
  else if n == 13 then "\\r"
  else if isPrintable c then [c]
  else if n < 0x100 then "\\x" ++ hexText 2 n
  else if n < 0x10000 then "\\u" ++ hexText 4 n
  else "\\U" ++ hexText 8 n

/-- Double quotes are used only for a text that has a single quote and no double quote. -/
def quoteMark (t : Text) : Char :=
  if t.contains (CodePoint.ofChar '\'') && !t.contains (CodePoint.ofChar '"') then '"' else '\''

def quoted (t : Text) : Text :=
  ofChar (quoteMark t) ++ t.flatMap (quotedPoint (quoteMark t)) ++ ofChar (quoteMark t)

end Untranslated.Text
