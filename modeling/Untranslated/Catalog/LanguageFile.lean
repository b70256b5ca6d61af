/-
This file loads the keys of a locale from a language directory.
-/

import Untranslated.FileTree.Walk
import Untranslated.Json.Parser
import Untranslated.Log
import Untranslated.Php.ReturnedArray

namespace Untranslated.Catalog

open FileTree (Entry Path ReadError)
open Json (Value)
open Php (KeyError Unreadable)

/-- Why the keys of a locale cannot be told. -/
inductive LoadError where
  | unknownLocale (locale : Text)
  | emptyLocale (locale jsonName : Text) (directory : Path)
  | unreadable (path : Path) (e : ReadError)
  | invalidJson (path : Path) (source : List Char) (e : Json.ParseError)
  | notObject (path : Path)
  | invalidCode (path : Path) (e : Unreadable)
  | key (e : KeyError)

def LoadError.message : LoadError → Text
  | .unknownLocale locale => "Unknown locale \x60" ++ locale ++ "\x60"
  | .emptyLocale locale jsonName directory =>
    "Unknown locale \x60" ++ locale ++ "\x60: no " ++ jsonName ++ " or " ++ locale ++ "/ in " ++
      directory.text
  | .unreadable path e => "Cannot read language file " ++ path.text ++ ": " ++ e.message
  | .invalidJson path source e =>
    "Invalid JSON in " ++ path.text ++ ": " ++ Text.ofString (e.message source)
  | .notObject path => "Expected a JSON object in " ++ path.text
  | .invalidCode _ e => "Cannot read language file " ++ e.syntaxError.text
  | .key _ => []

/-- The names and values that tell what an error is about. -/
def LoadError.context : LoadError → List (Text × Text)
  | .unknownLocale locale => [("locale", locale)]
  | .emptyLocale locale _ directory => [("locale", locale), ("lang_path", directory.text)]
  | .unreadable path _ | .invalidJson path _ _ | .notObject path | .invalidCode path _ =>
    [("path", path.text)]
  | .key _ => []

/-- A load may fail, and its records are kept all the same. -/
abbrev Load := ExceptT LoadError (StateM (List Record))

def report (record : Record) : Load Unit := modify (· ++ [record])

def attempt {A : Type} : Except LoadError A → Load A
  | .ok value => pure value
  | .error e => throw e

def origin : String := "locale_catalog"

def readFile (tree : Entry) (path : Path) : Except LoadError (List Char) :=
  match FileTree.readText tree .utf8 path with
  | .ok text => .ok text
  | .error e => .error (.unreadable path e)

/-- The names of the object in a JSON file. -/
def jsonKeys (tree : Entry) (path : Path) : Except LoadError (List Text) := do
  let source ← readFile tree path
  match Json.parse source with
  | .ok (.object members) => return members.map (·.1)
  | .ok _ => throw (.notObject path)
  | .error e =>
    if e.cause = .integerTooLong then throw (.key .numeral) else throw (.invalidJson path source e)

/-- The keys of the array that a text of code returns. A text that returns no array has none, and
is reported. -/
def codeKeys (source : List Char) (path : Option Text) :
    Except (Unreadable ⊕ KeyError) (List Text × List Record) :=
  match Php.parse source path with
  | .error e => .error (.inl e)
  | .ok program =>
    match program.returnedKeys with
    | .error e => .error (.inr e)
    | .ok (some keys) => .ok (keys, [])
    | .ok none =>
      .ok ([], [⟨.warning, origin,
        "Language file does not return an array literal: " ++ Php.pathOrPlaceholder path⟩])

def codeSuffix : Text := ".php"

/-- The name of a group is its path below the directory of the locale without the suffix. -/
def groupName (directory file : Path) : Text :=
  let parts := file.parts.drop directory.parts.length
  Text.join "/" (parts.dropLast ++ [Path.withoutSuffix (parts.getLast?.getD [])])

/-- The keys of one file under its group: the group itself and what the file defines. -/
def groupKeys (tree : Entry) (group : Text) (file : Path) : Load (List Text) := do
  let source ← attempt (readFile tree file)
  match codeKeys source (some file.text) with
  | .error (.inl e) => throw (.invalidCode file e)
  | .error (.inr e) => throw (.key e)
  | .ok (keys, records) =>
    records.forM report
    return group :: keys.map (group ++ "." ++ ·)

/-- The keys of all files of code below a directory. A package puts its name in front. -/
def directoryKeys (tree : Entry) (package : Option Text) (directory : Path) :
    Load (List Text) := do
  let files := (FileTree.walk tree directory).filter (Path.suffixOf ·.name == codeSuffix)
  let start :=
    match package with
    | some name => name ++ "::"
    | none => []
  let keys ← files.mapM fun file => groupKeys tree (start ++ groupName directory file) file
  return keys.flatten

/-- The directories in a directory, in the order of their names. -/
def directoriesIn (tree : Entry) (directory : Path) : List Path :=
  match FileTree.lookup? tree directory with
  | some entry =>
    ((Text.sort (entry.members.map (·.1))).map directory.child).filter (FileTree.isDirectory tree)
  | none => []

/-- The keys that packages define for a locale. -/
def packageKeys (tree : Entry) (directory : Path) (locale : Text) : Load (List Text) := do
  let packages := directoriesIn tree (directory.child "vendor")
  let keys ← packages.mapM fun package => do
    let inside := package.append (Path.ofText locale)
    if FileTree.isDirectory tree inside then directoryKeys tree (some package.name) inside
    else return []
  return keys.flatten

/-- The keys of a locale, from its JSON file, its directory and the packages. -/
def loadKeys (tree : Entry) (directory : Path) (locale : Text) : Load (List Text) := do
  let jsonFile := directory.append (Path.ofText (locale ++ ".json"))
  let own := directory.append (Path.ofText locale)
  let hasJson := FileTree.isFile tree jsonFile
  let hasDirectory := FileTree.isDirectory tree own
  if !hasJson && !hasDirectory then throw (.emptyLocale locale jsonFile.name directory)
  let fromJson ← if hasJson then attempt (jsonKeys tree jsonFile) else pure []
  let fromDirectory ← if hasDirectory then directoryKeys tree none own else pure []
  let fromPackages ← packageKeys tree directory locale
  return Text.unique (fromJson ++ fromDirectory ++ fromPackages)

end Untranslated.Catalog
