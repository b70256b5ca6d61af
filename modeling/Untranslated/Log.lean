/-
This file defines log records.
-/

import Untranslated.Text.CodePoint

namespace Untranslated

inductive Level where
  | debug
  | info
  | warning
deriving DecidableEq

def Level.name : Level → String
  | .debug => "DEBUG"
  | .info => "INFO"
  | .warning => "WARNING"

def Level.rank : Level → Nat
  | .debug => 0
  | .info => 1
  | .warning => 2

/-- A record has the name of the part of the program that it comes from. -/
structure Record where
  level : Level
  origin : String
  message : Text
deriving DecidableEq

def Record.text (record : Record) : Text :=
  Text.ofString s!"{record.level.name} lost_in_translation.services.{record.origin}: " ++
    record.message

end Untranslated
