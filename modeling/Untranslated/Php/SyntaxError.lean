/-
This file defines syntax errors and their text.
-/

import Untranslated.Text.CodePoint

namespace Untranslated.Php

/-- A syntax error has a message, and a place in a file as far as it is known. -/
structure SyntaxError where
  message : Text
  path : Option Text
  line : Option Int
  column : Option Int
deriving DecidableEq

/-- A text without a path has a name of its own in messages. -/
def pathOrPlaceholder (path : Option Text) : Text :=
  match path with
  | none | some [] => "<string>"
  | some path => path

/-- A column without a line is not shown. -/
def SyntaxError.location (e : SyntaxError) : Text :=
  let path := pathOrPlaceholder e.path
  match e.line, e.column with
  | none, _ => path
  | some line, none => path ++ ":" ++ Text.ofInt line
  | some line, some column => path ++ ":" ++ Text.ofInt line ++ ":" ++ Text.ofInt column

def SyntaxError.text (e : SyntaxError) : Text := e.location ++ ": " ++ e.message

end Untranslated.Php
