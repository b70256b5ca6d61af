/-
This file resolves the settings of a project from its configuration file and its environment.
-/

import Untranslated.Configuration.Settings

namespace Untranslated.Configuration

open FileTree (Entry Path ReadError)
open Json (Value)

def configurationName : Text := "lost-in-translation.json"

/-- The members of the object in a configuration file. -/
def configuration (tree : Entry) (path : Path) : Except ConfigError (List (Text × Value)) :=
  match FileTree.readText tree .utf8 path with
  | .error e => .error (.unreadable path e)
  | .ok source =>
    match Json.parse source with
    | .ok (.object members) => .ok members
    | .ok _ => .error (.notObject path)
    | .error e =>
      if e.cause = .integerTooLong then .error .oversizedNumber
      else .error (.invalidJson path source e)

/-- The variables of an environment. -/
abbrev Environment := List (Text × Text)

/-- An empty variable counts as missing. -/
def Environment.lookup? (environment : Environment) (name : Text) : Option Text :=
  ((environment.find? (·.1 = name)).map (·.2)).filter (!·.isEmpty)

def workersVariable : Text := "LIT_MAX_WORKERS"

/-- The paths of a variable are separated by colons. -/
def separatedPaths (value : Text) : List Text :=
  (Text.splitAtChar ':' value).filter (!·.isEmpty)

def environmentOverrides (environment : Environment) : Except ConfigError Overrides := do
  let workers ← (environment.lookup? workersVariable).mapM fun value =>
    workerCount workersVariable (.string value)
  return {
    baseLocale := environment.lookup? "LIT_BASE_LOCALE"
    paths := (environment.lookup? "LIT_PATHS").map separatedPaths
    languagePath := environment.lookup? "LIT_LANG_PATH"
    suffixes := none
    workers := workers
    directives := none }

/-- The settings of the configuration file, which is given or has the standard name. -/
def fileSettings (tree : Entry) (given : Option Text) (directory : Path) :
    Except ConfigError Settings := do
  let standard := directory.append (Path.ofText configurationName)
  match given with
  | some path => Settings.default.update (← configuration tree (Path.ofText path))
  | none =>
    if FileTree.isFile tree standard then Settings.default.update (← configuration tree standard)
    else return .default

/-- The environment goes before the configuration file. -/
def load (tree : Entry) (given : Option Text) (environment : Environment) (directory : Path) :
    Except ConfigError Settings := do
  let settings ← fileSettings tree given directory
  return settings.override (← environmentOverrides environment)

end Untranslated.Configuration
