/-
This file reads the arguments of the command line.
-/

import Untranslated.Text.Integer

namespace Untranslated.CommandLine

structure Arguments where
  locale : Text
  sorted : Bool
  verbosity : Nat
  json : Bool
  configuration : Option Text
  paths : Option (List Text)
  languagePath : Option Text
  baseLocale : Option Text
  jobs : Option Int
  noProgress : Bool

/-- Arguments are refused, or the usage is asked for. -/
inductive Usage where
  | help
  | invalid
deriving DecidableEq

def Usage.exitCode : Usage → Nat
  | .help => 0
  | .invalid => 2

inductive Flag where
  | help
  | sorted
  | verbose
  | json
  | configuration
  | path
  | languagePath
  | baseLocale
  | jobs
  | noProgress
deriving DecidableEq

/-- These flags have a value. -/
def Flag.takesValue : Flag → Bool
  | .configuration | .path | .languagePath | .baseLocale | .jobs => true
  | _ => false

def flagNames : List (Text × Flag) :=
  [("-h", .help), ("--help", .help), ("--sorted", .sorted), ("-v", .verbose),
    ("--verbose", .verbose), ("--json", .json), ("--config", .configuration), ("--path", .path),
    ("--lang-path", .languagePath), ("--base-locale", .baseLocale), ("--jobs", .jobs),
    ("--no-progress", .noProgress)]

def flag? (name : Text) : Option Flag := (flagNames.find? (·.1 = name)).map (·.2)

/-- The parts of a command line. A flag may have more text attached to it. -/
inductive Token where
  | value (text : Text)
  | separator
  | flag (flag : Flag) (isShort : Bool) (attached : Option Text)
  | unknown
deriving DecidableEq

def isLongName (name : Text) : Bool := Text.startsWith "--" name

/-- A name with a value attached by an equals sign. -/
def splitValue (argument : Text) : Text × Option Text :=
  match Text.splitOnce? "=" argument with
  | some (name, value) => (name, some value)
  | none => (argument, none)

/-- The flags that an argument may mean. A long name can be cut as long as it stays unique. -/
def candidates (argument : Text) : List Token :=
  if isLongName argument then
    let (start, attached) := splitValue argument
    (flagNames.filter fun (name, _) => Text.startsWith start name).map fun (_, flag) =>
      .flag flag false attached
  else
    (flagNames.filter fun (name, _) => name = argument.take 2).map fun (_, flag) =>
      .flag flag true (some (argument.drop 2))

def isDecimal (c : CodePoint) : Bool := (Text.decimalValue? c).isSome

/-- A negative number is a value. -/
def isNegativeNumber (argument : Text) : Bool :=
  match argument with
  | [] => false
  | _ :: digits =>
    let rest := digits.dropWhile isDecimal
    match rest with
    | [] => !digits.isEmpty
    | c :: fraction => c.is '.' && !fraction.isEmpty && fraction.all isDecimal

/-- An argument before the separator. A flag wins over a longer one, and a flag over a value. -/
def tokenOf (argument : Text) : Except Usage Token :=
  let (name, attached) := splitValue argument
  match flag? argument, flag? name with
  | some flag, _ => .ok (.flag flag (!isLongName argument) none)
  | none, some flag =>
    if isLongName name then .ok (.flag flag false attached)
    else .ok (.flag flag true (some (argument.drop name.length)))
  | none, none =>
    if !Text.startsWith "-" argument || argument.length == 1 then .ok (.value argument)
    else
      match candidates argument with
      | [token] => .ok token
      | _ :: _ :: _ => .error .invalid
      | [] =>
        if isNegativeNumber argument || argument.any (·.is ' ') then .ok (.value argument)
        else .ok .unknown

/-- After a separator everything is a value. -/
def tokens : List Text → Except Usage (List Token)
  | [] => .ok []
  | argument :: rest =>
    if argument = Text.ofString "--" then .ok (.separator :: rest.map .value)
    else do
      let token ← tokenOf argument
      return token :: (← tokens rest)

/-- The flags of one token, each with what is attached to it. Letters that are left over have no
place. -/
structure Cluster where
  flags : List (Flag × Option Text)
  hasRest : Bool

def Cluster.one (flag : Flag) (attached : Option Text) : Cluster := ⟨[(flag, attached)], false⟩

def Cluster.cons (flag : Flag) (cluster : Cluster) : Cluster :=
  { cluster with flags := (flag, none) :: cluster.flags }

/-- A short flag without a value can have further ones attached up to the first that is unknown. A
sign or a dash attached to it is refused. -/
def shortCluster (flag : Flag) : Text → Except Usage Cluster
  | [] => .ok (.one flag none)
  | c :: rest =>
    if c.is '=' || c.is '-' then .error .invalid
    else
      match flag? [CodePoint.ofChar '-', c] with
      | none => .ok ⟨[(flag, none)], true⟩
      | some next => (shortCluster next rest).map (.cons flag)

/-- A flag with a value takes all that is attached, and a long one without a value takes nothing. -/
def clusterOf (flag : Flag) (isShort : Bool) : Option Text → Except Usage Cluster
  | none => .ok (.one flag none)
  | some attached =>
    if flag.takesValue then .ok (.one flag (some attached))
    else if isShort then shortCluster flag attached
    else .error .invalid

/-- What is known while the tokens are read. A value that has no place is left over. -/
structure Progress where
  arguments : Arguments
  hasLocale : Bool
  hasRest : Bool

def Progress.start : Progress where
  arguments := ⟨[], false, 0, false, none, none, none, none, none, false⟩
  hasLocale := false
  hasRest := false

/-- A flag without a value. Asking for help ends the reading at once. -/
def Arguments.set (flag : Flag) (arguments : Arguments) : Except Usage Arguments :=
  match flag with
  | .help => .error .help
  | .sorted => .ok { arguments with sorted := true }
  | .verbose => .ok { arguments with verbosity := arguments.verbosity + 1 }
  | .json => .ok { arguments with json := true }
  | .noProgress => .ok { arguments with noProgress := true }
  | _ => .error .invalid

/-- A flag with its value. Paths add up, and of other values the last counts. -/
def Arguments.setValue (flag : Flag) (value : Text) (arguments : Arguments) :
    Except Usage Arguments :=
  match flag with
  | .configuration => .ok { arguments with configuration := some value }
  | .path => .ok { arguments with paths := some (arguments.paths.getD [] ++ [value]) }
  | .languagePath => .ok { arguments with languagePath := some value }
  | .baseLocale => .ok { arguments with baseLocale := some value }
  | .jobs =>
    match Text.integer? value with
    | some jobs => .ok { arguments with jobs := some jobs }
    | none => .error .invalid
  | _ => .error .invalid

def applyFlag (arguments : Arguments) : Flag × Option Text → Except Usage Arguments
  | (flag, none) => arguments.set flag
  | (flag, some value) => arguments.setValue flag value

def Progress.apply (cluster : Cluster) (progress : Progress) : Except Usage Progress :=
  (cluster.flags.foldlM applyFlag progress.arguments).map fun arguments =>
    { progress with arguments, hasRest := progress.hasRest || cluster.hasRest }

/-- The first value is the locale. -/
def Progress.takeValue (value : Text) (progress : Progress) : Progress :=
  if progress.hasLocale then { progress with hasRest := true }
  else
    { progress with
      arguments := { progress.arguments with locale := value }
      hasLocale := true }

def Progress.leave (progress : Progress) : Progress := { progress with hasRest := true }

/-- A separator stands beside the locale, and has no place elsewhere. -/
def readTokens (progress : Progress) : List Token → Except Usage Progress
  | [] => .ok progress
  | .unknown :: rest => readTokens progress.leave rest
  | .value value :: .separator :: rest =>
    if progress.hasLocale then readTokens progress.leave rest
    else readTokens (progress.takeValue value) rest
  | .value value :: rest => readTokens (progress.takeValue value) rest
  | .separator :: .value value :: rest =>
    if progress.hasLocale then readTokens progress.leave rest
    else readTokens (progress.takeValue value) rest
  | .separator :: rest => readTokens progress.leave rest
  | .flag flag isShort none :: rest =>
    if flag.takesValue then
      match rest with
      | .value value :: later => do readTokens (← progress.apply (.one flag (some value))) later
      | _ => .error .invalid
    else do
      readTokens (← progress.apply (← clusterOf flag isShort none)) rest
  | .flag flag isShort (some attached) :: rest => do
    readTokens (← progress.apply (← clusterOf flag isShort (some attached))) rest

/-- The locale is required, and nothing may be left over. -/
def readArguments (argv : List Text) : Except Usage Arguments := do
  let progress ← readTokens .start (← tokens argv)
  if progress.hasLocale && !progress.hasRest then return progress.arguments
  else throw .invalid

end Untranslated.CommandLine
