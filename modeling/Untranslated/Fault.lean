/-
This file tells the errors that the program reports from the faults that it does not expect.
-/

import Untranslated.Scan.Finder
import Untranslated.Configuration.Load

namespace Untranslated

/-- A fault ends the program without a report. -/
inductive Fault where
  | value
  | overflow
  | type
  | encoding
  | missingFile
  | circularLink
deriving DecidableEq

def Php.Literal.EscapeError.fault : Php.Literal.EscapeError → Fault
  | .beyondUnicode => .value
  | .beyondInteger => .overflow

def Php.KeyError.fault : Php.KeyError → Fault
  | .escape e => e.fault
  | .numeral => .value

def Call.TargetError.fault (e : Call.TargetError) : Fault :=
  if e.isTypeError then .type else .value

def Catalog.LoadError.fault? : Catalog.LoadError → Option Fault
  | .key e => some e.fault
  | _ => none

def Scan.ScanError.fault? : Scan.ScanError → Option Fault
  | .escape e => some e.fault
  | .catalog e => e.fault?
  | _ => none

/-- A configuration file has to be text, and its numbers have to be finite and not too long. -/
def Configuration.ConfigError.fault? : Configuration.ConfigError → Option Fault
  | .infinite => some .overflow
  | .oversizedNumber => some .value
  | .unreadable _ (.undecodable _) => some .encoding
  | _ => none

/-- A file that is listed with its text has to be there and in its encoding. -/
def FileTree.ReadError.fault : FileTree.ReadError → Fault
  | .obstacle _ _ => .missingFile
  | .undecodable _ => .encoding

end Untranslated
