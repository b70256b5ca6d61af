/-
This file is the program. It reads the files of the working directory and hands them over.
-/

import Untranslated.CommandLine.Run

namespace Untranslated.Main

open CommandLine (Ending)
open FileTree (Entry)

def textOfString (s : String) : Text := Text.ofString s

/-- A text with a lone surrogate cannot be written. -/
def stringOfText? (t : Text) : Option String := (t.mapM CodePoint.toChar?).map String.ofList

/-- The error stream shows a lone surrogate by its escape. -/
def diagnosticString (t : Text) : String :=
  String.join (t.map fun c =>
    (c.toChar?.map String.singleton).getD ("\\u" ++ Text.hexText 4 c.value))

def variableNames : List String :=
  ["LIT_BASE_LOCALE", "LIT_PATHS", "LIT_LANG_PATH", "LIT_MAX_WORKERS"]

def readEnvironment : IO Configuration.Environment :=
  variableNames.filterMapM fun name => do
    return (← IO.getEnv name).map fun value => (textOfString name, textOfString value)

/-- What cannot be read is a link to a place outside the tree. -/
def deadLink : Entry := .link (textOfString "/")

/-- The way from a directory of the tree to a place that is named from the root. -/
def wayTo (depth : Nat) (place : List Char) : Text :=
  Text.ofChars ((List.replicate depth "../".toList).flatten ++ place)

/-- A link to a place in the tree stays a link. A file outside the tree is read. -/
def readLink (root : String) (depth : Nat) (entry : IO.FS.DirEntry) : IO Entry := do
  let target := (← IO.FS.realPath entry.path).toString
  let start := (root ++ "/").toList
  if target == root then return .link (wayTo depth ['.'])
  else if start.isPrefixOf target.toList then
    return .link (wayTo depth (target.toList.drop start.length))
  else if ← entry.path.isDir then return deadLink
  else return .file (← IO.FS.readBinFile entry.path).toList

/-- An entry of a directory so many directories below the root. -/
partial def readEntry (root : String) (depth : Nat) (entry : IO.FS.DirEntry) :
    IO (Text × Entry) := do
  let name := textOfString entry.fileName
  try
    match (← entry.path.symlinkMetadata).type with
    | .dir =>
      let entries ← entry.path.readDir
      return (name, .directory (← entries.toList.mapM (readEntry root (depth + 1))))
    | .file => return (name, .file (← IO.FS.readBinFile entry.path).toList)
    | .symlink => return (name, ← readLink root depth entry)
    | .other => return (name, deadLink)
  catch _ => return (name, deadLink)

/-- The files of the working directory. -/
def readTree : IO Entry := do
  let directory ← IO.currentDir
  let root := (← IO.FS.realPath directory).toString
  let entries ← directory.readDir
  return .directory (← entries.toList.mapM (readEntry root 0))

def reportFault : IO UInt32 := do
  IO.eprintln "unexpected fault"
  return 1

/-- The exit code of a run, after its texts are written. An output that cannot be written is a
fault. -/
def finish : Ending → IO UInt32
  | .usage .help => do
    IO.println "usage: untranslated [options] locale"
    return 0
  | .usage .invalid => do
    IO.eprintln "usage: untranslated [options] locale"
    return 2
  | .finished exitCode output diagnostics => do
    IO.eprint (diagnosticString diagnostics)
    match stringOfText? output with
    | some written =>
      IO.print written
      return exitCode.toUInt32
    | none => reportFault
  | .fault _ => reportFault

end Untranslated.Main

def main (arguments : List String) : IO UInt32 := do
  let tree ← Untranslated.Main.readTree
  let environment ← Untranslated.Main.readEnvironment
  let isTerminal ← (← IO.getStderr).isTty
  let argv := arguments.map Untranslated.Main.textOfString
  Untranslated.Main.finish (Untranslated.CommandLine.run tree environment isTerminal argv)
