/-
This file scans a single file for the keys of its texts.
-/

import Untranslated.Blade.Lowering
import Untranslated.Call.Key
import Untranslated.Catalog.Lookup

namespace Untranslated.Scan

open Call (Reason Resolution Targets)
open Catalog (LoadError)
open FileTree (Entry Path ReadError)
open Php (Aliases Node Program Unreadable)
open Php.Literal (EscapeError)

/-- A template is lowered before it is parsed. -/
inductive SourceKind where
  | code
  | template
deriving DecidableEq

def SourceKind.name : SourceKind → String
  | .code => "php"
  | .template => "blade"

def templateSuffix : Text := ".blade.php"

def SourceKind.ofName (name : Text) : SourceKind :=
  if Text.endsWith templateSuffix name then .template else .code

structure SourceFile where
  path : Path
  text : List Char
  kind : SourceKind

/-- A source is given with its text, or is a file to be read. -/
inductive Source where
  | given (file : SourceFile)
  | onDisk (path : Path)

inductive ScanError where
  | unreadable (path : Path) (e : ReadError)
  | invalidCode (e : Unreadable)
  | escape (e : EscapeError)
  | catalog (e : LoadError)

/-- The text of a read error names the file once more. -/
def ScanError.message : ScanError → Text
  | .unreadable path e => path.text ++ ": cannot read source file: " ++ e.message
  | .invalidCode e => e.syntaxError.text
  | .escape _ => []
  | .catalog e => e.message

/-- A warning tells of a call whose key cannot be told. -/
structure Warning where
  path : Text
  line : Nat
  column : Nat
  reason : Reason
  argument : Text
deriving DecidableEq

/-- A call without a path is placed by its line alone. -/
def describe (path : Option Text) (line : Int) (reason : Reason) (argument : Text) : Text :=
  let place : Text :=
    match path with
    | none | some [] => "line " ++ Text.ofInt line
    | some path => path ++ ":" ++ Text.ofInt line
  match reason with
  | .missingArgument => "skipping call without language key (" ++ place ++ ")"
  | .nonStringArgument =>
    "skipping dynamic language key: \x60" ++ argument ++ "\x60 (" ++ place ++ ")"

def Warning.text (warning : Warning) : Text :=
  describe (some warning.path) warning.line warning.reason warning.argument

/-- The keys of a file without repetition, its warnings and the number of its call sites. -/
structure FileScan where
  path : Text
  keys : List Text
  warnings : List Warning
  callSites : Nat

def FileScan.empty (path : Text) : FileScan := ⟨path, [], [], 0⟩

def FileScan.add (site : Call.Site) (scan : FileScan) : Resolution → FileScan
  | .key key =>
    { scan with
      callSites := scan.callSites + 1
      keys := if scan.keys.contains key then scan.keys else scan.keys ++ [key] }
  | .rejected reason argument =>
    { scan with
      callSites := scan.callSites + 1
      warnings := scan.warnings ++
        [⟨scan.path, site.position.line, site.position.column, reason, argument⟩] }

/-- The scan after a node. Finding a call and telling its key can both meet an oversized escape. -/
def scanNode (program : Program) (targets : Targets) (aliases : Aliases) (scan : FileScan)
    (node : Node) : Except EscapeError FileScan := do
  match ← Call.siteAt? program targets aliases node with
  | none => return scan
  | some site => return scan.add site (← site.resolution program)

def scanProgram (path : Text) (program : Program) (targets : Targets) :
    Except EscapeError FileScan :=
  program.root.nodes.foldlM (scanNode program targets program.aliases) (FileScan.empty path)

def loweredText (directives : List Text) (file : SourceFile) : List Char :=
  match file.kind with
  | .code => file.text
  | .template => Blade.lower directives file.text

def parseFile (directives : List Text) (file : SourceFile) : Except ScanError Program :=
  (Php.parse (loweredText directives file) (some file.path.text)).mapError .invalidCode

def scanFile (targets : Targets) (directives : List Text) (file : SourceFile) :
    Except ScanError FileScan := do
  let program ← parseFile directives file
  (scanProgram file.path.text program targets).mapError .escape

def readSource (tree : Entry) : Source → Except ScanError SourceFile
  | .given file => .ok file
  | .onDisk path =>
    match FileTree.readText tree .utf8 path with
    | .ok text => .ok ⟨path, text, .ofName path.text⟩
    | .error e => .error (.unreadable path e)

def scanSource (tree : Entry) (targets : Targets) (directives : List Text) (source : Source) :
    Except ScanError FileScan := do
  scanFile targets directives (← readSource tree source)

def FileScan.record (scan : FileScan) : Record :=
  ⟨.debug, "missing_key_finder",
    scan.path ++ ": " ++ Text.ofNat scan.callSites ++ " call site(s), " ++
      Text.ofNat scan.keys.length ++ " key(s), " ++ Text.ofNat scan.warnings.length ++
      " warning(s)"⟩

end Untranslated.Scan
