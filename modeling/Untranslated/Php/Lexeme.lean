/-
This file defines the tokens of PHP code.
-/

namespace Untranslated.Php

/-- The shape tells names, numbers, marks and the kinds of quoted text apart. Text with an
interpolation comes in pieces between an opening and a closing one. -/
inductive Shape where
  | word
  | mark
  | integer
  | real
  | singleQuoted
  | doubleQuoted
  | heredoc
  | nowdoc
  | shellQuoted
  | templateOpening
  | templateText
  | templateClosing
  | ending
  | broken
deriving DecidableEq

/-- The spelling of a word is in lower case, for keywords have no case. Quoted text and numbers
have no spelling. A token after the end of a stretch of code is marked, for a statement ends
there. -/
structure Lexeme where
  shape : Shape
  spelling : String
  afterBreak : Bool
deriving DecidableEq

/-- Comments and template text stand between tokens. -/
inductive Filler where
  | lineComment
  | hashComment
  | blockComment
  | markup
deriving DecidableEq

structure Extra where
  filler : Filler
  start : Nat
  stop : Nat
deriving DecidableEq

/-- A token has a place in the text and the extras in front of it. -/
structure Token where
  lexeme : Lexeme
  lead : List Extra
  start : Nat
  stop : Nat
deriving DecidableEq

end Untranslated.Php
