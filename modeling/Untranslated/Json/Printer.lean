/-
This file writes JSON, on one line or with an indentation of two blanks.
-/

import Untranslated.Json.Value

namespace Untranslated.Json

/-- Quotes, backslashes and control characters are escaped, and all else is written as it is. -/
def escapedPoint (c : CodePoint) : Text :=
  let n := c.value
  if n == 0x22 then "\\\""
  else if n == 0x5C then "\\\\"
  else if n == 0x0A then "\\n"
  else if n == 0x0D then "\\r"
  else if n == 0x09 then "\\t"
  else if n == 0x08 then "\\b"
  else if n == 0x0C then "\\f"
  else if n < 0x20 then "\\u" ++ Text.hexText 4 n
  else [c]

def stringText (t : Text) : Text :=
  Text.ofString "\"" ++ t.flatMap escapedPoint ++ Text.ofString "\""

/-- The layout gives what stands after an opening bracket, after a comma and before a closing
bracket, at a depth. -/
structure Layout where
  opening : Nat → Text
  between : Nat → Text
  closing : Nat → Text
  colon : Text

def lineAt (depth : Nat) : Text :=
  Text.ofString "\n" ++ (List.replicate (2 * depth) (CodePoint.ofChar ' '))

def Layout.indented : Layout where
  opening depth := lineAt (depth + 1)
  between depth := Text.ofString "," ++ lineAt (depth + 1)
  closing depth := lineAt depth
  colon := ": "

def Layout.compact : Layout where
  opening _ := []
  between _ := ","
  closing _ := []
  colon := ":"

def scalarText : Value → Text
  | .null => "null"
  | .bool true => "true"
  | .bool false => "false"
  | .integer n => Text.ofInt n
  | .real .notANumber => "NaN"
  | .real (.infinite false) => "Infinity"
  | .real (.infinite true) => "-Infinity"
  | .real x => Text.ofString x.text
  | .string t => stringText t
  | .array _ => "[]"
  | .object _ => "\x7b\x7d"

mutual

def Value.write (layout : Layout) (depth : Nat) : Value → Text
  | .array (first :: rest) =>
    Text.ofString "[" ++ layout.opening depth ++ first.write layout (depth + 1) ++
      writeItems layout depth rest ++ layout.closing depth ++ Text.ofString "]"
  | .object ((name, first) :: rest) =>
    Text.ofString "\x7b" ++ layout.opening depth ++ stringText name ++ layout.colon ++
      first.write layout (depth + 1) ++ writeMembers layout depth rest ++
      layout.closing depth ++ Text.ofString "\x7d"
  | other => scalarText other

/-- The items after the first. -/
def writeItems (layout : Layout) (depth : Nat) : List Value → Text
  | [] => []
  | item :: rest =>
    layout.between depth ++ item.write layout (depth + 1) ++ writeItems layout depth rest

/-- The members after the first. -/
def writeMembers (layout : Layout) (depth : Nat) : List (Text × Value) → Text
  | [] => []
  | (name, item) :: rest =>
    layout.between depth ++ stringText name ++ layout.colon ++ item.write layout (depth + 1) ++
      writeMembers layout depth rest

end

def Value.indented (value : Value) : Text := value.write .indented 0

def Value.compact (value : Value) : Text := value.write .compact 0

end Untranslated.Json
