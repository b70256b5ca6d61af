/-
This file finds the key that is given to a call.
-/

import Untranslated.Call.Site

namespace Untranslated.Call

open Php (Node Program)
open Php.Literal (EscapeError value?)

/-- A call has no key if it has no argument for it, or one that is no literal. -/
inductive Reason where
  | missingArgument
  | nonStringArgument
deriving DecidableEq

def Reason.text : Reason → String
  | .missingArgument => "missing-argument"
  | .nonStringArgument => "non-string-argument"

/-- A call gives a literal key, or is rejected with the text of its argument. -/
inductive Resolution where
  | key (value : Text)
  | rejected (reason : Reason) (argument : Text)
deriving DecidableEq

/-- The name of the parameter that an argument is for. A name with no value after it is none. -/
def argumentName? (source : List Char) (argument : Node) : Option Text := do
  let name ← argument.child? .name
  let last ← argument.namedChildren.getLast?
  if last.role == .name then none else some (name.text source)

def keyParameter : Text := "key"

/-- A first argument without a name is the key. Otherwise the key is the argument of that name. -/
def keyArgument? (source : List Char) (arguments : List Node) : Option Node :=
  match arguments with
  | [] => none
  | first :: _ =>
    match argumentName? source first with
    | none => some first
    | some _ => arguments.find? fun argument => argumentName? source argument == some keyParameter

/-- The key is the value of an argument. Several arguments unpacked at once have none. -/
def resolve (source : List Char) (arguments : List Node) : Except EscapeError Resolution :=
  match keyArgument? source arguments with
  | none => .ok (.rejected .missingArgument [])
  | some argument =>
    match argument.namedChildren.getLast? with
    | none => .ok (.rejected .missingArgument [])
    | some value => do
      let rejected := Resolution.rejected .nonStringArgument (argument.text source)
      if value.kind == .spread then return rejected
      match ← value? source value with
      | some key => return .key key
      | none => return rejected

/-- Keys are read from the masked text. -/
def Site.resolution (program : Program) (site : Site) : Except EscapeError Resolution :=
  resolve program.source.masked site.arguments

end Untranslated.Call
