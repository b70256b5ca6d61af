/-
This file gives the report of a run as a JSON value.
-/

import Untranslated.Scan.Finder

namespace Untranslated.Scan

open Json (Value)

def number (n : Nat) : Value := .integer n

def Warning.report (warning : Warning) : Value :=
  .object [("path", .string warning.path), ("line", number warning.line),
    ("column", number warning.column), ("reason", .string warning.reason.text),
    ("argument", .string warning.argument)]

def ScanResult.report (sorted : Bool) (result : ScanResult) : Value :=
  .object [("missing", .array ((result.ordered sorted).map .string)),
    ("reported_count", number result.reported.length),
    ("files_scanned", number result.filesScanned),
    ("warnings", .array (result.warnings.map Warning.report))]

end Untranslated.Scan
