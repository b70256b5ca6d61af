/-
This file evaluates string expressions that are made of literals alone.
-/

import Untranslated.Php.Literal.Document
import Untranslated.Php.Literal.Escape
import Untranslated.Php.Source
import Untranslated.Php.Tree

namespace Untranslated.Php

/-- The text of a node in one of the forms of its source. -/
def Node.text (source : List Char) (node : Node) : Text :=
  Text.ofChars (slice source node.start node.stop)

/-- The named children that are no comments. -/
def Node.parts (node : Node) : List Node := node.namedChildren.filter (·.kind != .comment)

/-- A part is smaller than its parent. -/
theorem Node.sizeOfPart {node child : Node} (member : child ∈ node.parts) :
    child.size < node.size :=
  Node.sizeOfNamed (List.mem_filter.mp member).1

namespace Literal

/-- The quoted text may have the letter `b` in front. -/
def withoutLetter (text : Text) : Text :=
  if text.head?.any fun c => c.is 'b' || c.is 'B' then text.drop 1 else text

/-- The text between the quotes. -/
def betweenQuotes (text : Text) : Text := ((withoutLetter text).drop 1).dropLast

def isConcatenation (node : Node) : Bool :=
  (node.child? .operator).any (·.spelling == ".")

/-- The text that an expression stands for. It is absent if the expression is not static. -/
def value? (source : List Char) (node : Node) : Except EscapeError (Option Text) :=
  match node.kind with
  | .parenthesized =>
    match parts : node.parts with
    | [inner] =>
      have : inner.size < node.size := Node.sizeOfPart (by simp [parts])
      value? source inner
    | _ => .ok none
  | .binary =>
    if !isConcatenation node then .ok none
    else
      match left : node.child? .left, right : node.child? .right with
      | some first, some second =>
        have := Node.sizeOfChild left
        have := Node.sizeOfChild right
        do
          match ← value? source first with
          | none => return none
          | some before => return (← value? source second).map (before ++ ·)
      | _, _ => .ok none
  | .singleQuoted => .ok (some (unescapeSingle (betweenQuotes (node.text source))))
  | .doubleQuoted => (unescapeDouble true (betweenQuotes (node.text source))).map some
  | .nowdoc => .ok (documentBody? (node.text source))
  | .heredoc =>
    match documentBody? (node.text source) with
    | none => .ok none
    | some body => (unescapeDouble false body).map some
  | _ => .ok none
termination_by node.size

end Literal

end Untranslated.Php
