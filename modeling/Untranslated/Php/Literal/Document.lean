/-
This file reads the bodies of heredocs and nowdocs.
The indentation of the closing line is removed from every line.
-/

import Untranslated.Text.Blank
import Untranslated.Text.Word

namespace Untranslated.Php.Literal

open Text (isWord)

def isIndentation (c : CodePoint) : Bool := c.is ' ' || c.is '\t'

def isQuoteMark (c : CodePoint) : Bool := c.is '\'' || c.is '"'

def isNewline (c : CodePoint) : Bool := c.is '\n'

/-- The opening line gives the label and what follows the line. The label may stand in quotes. -/
def opening? (text : Text) : Option (Text × Text) :=
  let marks := if text.head?.any fun c => c.is 'b' || c.is 'B' then text.drop 1 else text
  if !Text.startsWith "<<<" marks then none
  else
    let rest := (marks.drop 3).dropWhile isIndentation
    let quote := (rest.take 1).filter isQuoteMark
    let label := (rest.drop quote.length).takeWhile isWord
    let after := rest.drop (quote.length + label.length)
    if label.isEmpty || !Text.startsWith quote after then none
    else
      match (after.drop quote.length).dropWhile isIndentation with
      | c :: d :: lines =>
        if c.is '\n' then some (label, d :: lines)
        else if c.is '\r' && d.is '\n' then some (label, lines)
        else none
      | [c] => if c.is '\n' then some (label, []) else none
      | [] => none

/-- A line without the indentation. One that has less loses what it has. -/
def dedent (indentation line : Text) : Text :=
  if Text.startsWith indentation line then line.drop indentation.length
  else line.dropWhile isIndentation

/-- A carriage return before the last newline belongs to the line end. -/
def dropReturn (body : Text) : Text :=
  if Text.endsWith "\r" body then body.dropLast else body

/-- The body of a document. It is absent if the opening line or the label is malformed. -/
def documentBody? (text : Text) : Option Text := do
  let (label, rest) ← opening? text
  let lines := Text.splitWhere isNewline rest
  let closing ← lines.getLast?
  if !Text.startsWith label (closing.dropWhile isIndentation) then none
  else
    let indentation := closing.takeWhile isIndentation
    return dropReturn (Text.join "\n" (lines.dropLast.map (dedent indentation)))

end Untranslated.Php.Literal
