/-
This file defines the settings of a project, and reads them from a configuration.
-/

import Untranslated.Call.Target
import Untranslated.FileTree.Entry
import Untranslated.Json.Parser
import Untranslated.Text.Integer

namespace Untranslated.Configuration

open Call (TargetError Targets)
open FileTree (Path ReadError)
open Json (Value)

/-- Without a language directory a standard one is taken. Without a number of workers there are
several. -/
structure Settings where
  baseLocale : Text
  paths : List Text
  languagePath : Option Text
  suffixes : List Text
  workers : Option Int
  directives : List Text
  targets : Targets

def Settings.default : Settings where
  baseLocale := "en"
  paths := ["resources/views", "app"]
  languagePath := none
  suffixes := ["php"]
  workers := none
  directives := []
  targets := .default

/-- What is wrong with a configuration. -/
inductive ConfigError where
  | emptyLocale
  | notTexts (name : Text)
  | noInteger (name : Text) (value : Value)
  | tooFewWorkers (name : Text) (count : Int)
  | infinite
  | noTargets
  | invalidTargets (e : TargetError)
  | unreadable (path : Path) (e : ReadError)
  | invalidJson (path : Path) (source : List Char) (e : Json.ParseError)
  | oversizedNumber
  | notObject (path : Path)
  | tooFewJobs

def ticked (name : Text) : Text := "\x60" ++ name ++ "\x60"

def ConfigError.message : ConfigError → Text
  | .emptyLocale => "\x60locale\x60 must be a non-empty string"
  | .notTexts name => ticked name ++ " must be a list of strings"
  | .noInteger name value => ticked name ++ " must be an integer, got " ++ value.described
  | .tooFewWorkers name count => ticked name ++ " must be >= 1, got " ++ Text.ofInt count
  | .infinite => []
  | .noTargets => "\x60detect\x60 must be an object"
  | .invalidTargets e => "Invalid \x60detect\x60 entry: " ++ e.message
  | .unreadable path e => "Cannot read config file " ++ path.text ++ ": " ++ e.message
  | .invalidJson path source e =>
    "Invalid JSON in " ++ path.text ++ ": " ++ Text.ofString (e.message source)
  | .oversizedNumber => []
  | .notObject path => "Config file " ++ path.text ++ " must contain a JSON object"
  | .tooFewJobs => "--jobs must be >= 1"

/-- The entry or the file that an error is about. -/
def ConfigError.context : ConfigError → List (Text × Text)
  | .emptyLocale => [("key", "locale")]
  | .notTexts name | .noInteger name _ | .tooFewWorkers name _ => [("key", name)]
  | .noTargets | .invalidTargets _ => [("key", "detect")]
  | .unreadable path _ | .invalidJson path _ _ | .notObject path => [("path", path.text)]
  | .infinite | .oversizedNumber | .tooFewJobs => []

/-- A text with some characters. -/
def nonEmptyText : Value → Except ConfigError Text
  | .string (c :: rest) => .ok (c :: rest)
  | _ => .error .emptyLocale

def textOf? : Value → Option Text
  | .string t => some t
  | _ => none

/-- A single text counts as a list of one. -/
def texts (name : Text) : Value → Except ConfigError (List Text)
  | .string t => .ok [t]
  | .array items =>
    match items.mapM textOf? with
    | some texts => .ok texts
    | none => .error (.notTexts name)
  | _ => .error (.notTexts name)

/-- A number is cut towards zero, a truth value counts as zero or one, and a text is read. -/
def integerOf (name : Text) (value : Value) : Except ConfigError Int :=
  match value with
  | .bool b => .ok (if b then 1 else 0)
  | .integer n => .ok n
  | .real (.infinite _) => .error .infinite
  | .real x =>
    match x.truncate? with
    | some n => .ok n
    | none => .error (.noInteger name value)
  | .string t =>
    match Text.integer? t with
    | some n => .ok n
    | none => .error (.noInteger name value)
  | _ => .error (.noInteger name value)

/-- A number of workers is one at least. -/
def workerCount (name : Text) (value : Value) : Except ConfigError Int := do
  let count ← integerOf name value
  if count < 1 then throw (.tooFewWorkers name count)
  return count

def targetsOf : Value → Except ConfigError Targets
  | .object members =>
    match Targets.ofMembers members with
    | .ok targets => .ok targets
    | .error e => .error (.invalidTargets e)
  | _ => .error .noTargets

/-- An entry that is present is read, and any other keeps what it was. -/
def entry {A : Type} (members : List (Text × Value)) (name : Text) (old : A)
    (read : Value → Except ConfigError A) : Except ConfigError A :=
  match Value.lookup? members name with
  | none => .ok old
  | some value => read value

/-- A suffix may be written with stars in front. -/
def withoutStars (suffix : Text) : Text := suffix.dropWhile (·.is '*')

/-- The settings with the entries of a configuration. The first invalid entry is the error. -/
def Settings.update (settings : Settings) (members : List (Text × Value)) :
    Except ConfigError Settings := do
  let baseLocale ← entry members "locale" settings.baseLocale nonEmptyText
  let paths ← entry members "paths" settings.paths (texts "paths")
  let languagePath ← entry members "lang_path" settings.languagePath fun value =>
    .ok (some value.bare)
  let suffixes ← entry members "extensions" settings.suffixes fun value =>
    (texts "extensions" value).map (·.map withoutStars)
  let workers ← entry members "max_workers" settings.workers fun value =>
    (workerCount "max_workers" value).map some
  let directives ← entry members "blade_directives" settings.directives (texts "blade_directives")
  let targets ← entry members "detect" settings.targets targetsOf
  return { baseLocale, paths, languagePath, suffixes, workers, directives, targets }

/-- Overrides replace what they hold, without any check. -/
structure Overrides where
  baseLocale : Option Text
  paths : Option (List Text)
  languagePath : Option Text
  suffixes : Option (List Text)
  workers : Option Int
  directives : Option (List Text)

def Overrides.none : Overrides := ⟨.none, .none, .none, .none, .none, .none⟩

/-- An override under a name. It is absent if there is no setting of that name and type. -/
def Overrides.set? (overrides : Overrides) (name : Text) (value : Value) : Option Overrides :=
  let texts := match value with
    | .array items => items.mapM textOf?
    | _ => .none
  if name = Text.ofString "base_locale" then
    (textOf? value).map fun t => { overrides with baseLocale := some t }
  else if name = Text.ofString "paths" then texts.map fun ts => { overrides with paths := some ts }
  else if name = Text.ofString "lang_path" then
    (textOf? value).map fun t => { overrides with languagePath := some t }
  else if name = Text.ofString "extensions" then
    texts.map fun ts => { overrides with suffixes := some ts }
  else if name = Text.ofString "max_workers" then
    match value with
    | .integer n => some { overrides with workers := some n }
    | _ => .none
  else if name = Text.ofString "blade_directives" then
    texts.map fun ts => { overrides with directives := some ts }
  else .none

/-- A missing value overrides nothing, whatever its name. -/
def Overrides.ofMembers? (members : List (Text × Value)) : Option Overrides :=
  members.foldlM (fun overrides (name, value) =>
    match value with
    | .null => some overrides
    | value => overrides.set? name value) .none

def Settings.override (settings : Settings) (overrides : Overrides) : Settings where
  baseLocale := overrides.baseLocale.getD settings.baseLocale
  paths := overrides.paths.getD settings.paths
  languagePath := overrides.languagePath <|> settings.languagePath
  suffixes := overrides.suffixes.getD settings.suffixes
  workers := overrides.workers <|> settings.workers
  directives := overrides.directives.getD settings.directives
  targets := settings.targets

end Untranslated.Configuration
