/-
This file defines membership in a table of code point ranges.
-/

import Untranslated.Text.CodePoint

namespace Untranslated.Text

/-- Each pair holds the first and the last code point of a range. -/
abbrev RangeTable := List (Nat × Nat)

def RangeTable.contains (table : RangeTable) (n : Nat) : Bool :=
  table.any fun (first, last) => first ≤ n && n ≤ last

end Untranslated.Text
