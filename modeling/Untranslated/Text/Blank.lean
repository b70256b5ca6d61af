/-
This file defines white space and line ends.
-/

import Untranslated.Text.Range

namespace Untranslated.Text

/-- These are the code points of Unicode's white space, with the four separator controls. -/
def blankRanges : RangeTable := [
  (9, 13), (28, 32), (133, 133), (160, 160), (5760, 5760), (8192, 8202), (8232, 8233),
  (8239, 8239), (8287, 8287), (12288, 12288)]

def isBlank (c : CodePoint) : Bool := RangeTable.contains blankRanges c.value

def isBlankChar (c : Char) : Bool := isBlank (CodePoint.ofChar c)

def strip (t : Text) : Text := trim isBlank t

/-- The parts between runs of white space. -/
def words (t : Text) : List Text := (splitWhere isBlank t).filter (!·.isEmpty)

/-- These code points end a line of a displayed text. -/
def isLineEnd (c : CodePoint) : Bool :=
  [0x0A, 0x0B, 0x0C, 0x0D, 0x1C, 0x1D, 0x1E, 0x85, 0x2028, 0x2029].contains c.value

end Untranslated.Text
