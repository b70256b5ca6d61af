/-
This file finds the calls to configured targets in a program.
-/

import Untranslated.Call.Target

namespace Untranslated.Call

open Php (Node Kind Role Program Aliases Position)
open Php.Literal (EscapeError value?)

/-- A call site has a label that tells what is called, and the arguments of the call. -/
structure Site where
  node : Node
  label : Text
  position : Position
  arguments : List Node

/-- The arguments of a call in the order of the text. -/
def argumentsOf (call : Node) : List Node :=
  match call.child? .arguments with
  | none => []
  | some row => row.namedChildren.filter (·.kind == .argument)

/-- The text of a name as it is written. Names that are computed, and names relative to the
namespace, have none. -/
def plainName? (source : List Char) (node : Option Node) : Option Text :=
  match node with
  | none => none
  | some node =>
    if node.kind == .name || node.kind == .qualifiedName then some (node.text source) else none

/-- These functions give the service that their first argument names. -/
def isContainer (function : Text) : Bool :=
  let name := Text.lower function
  name == Text.ofString "app" || name == Text.ofString "resolve"

/-- The service that a container is asked for. -/
def serviceName? (source : List Char) (aliases : Aliases) (call : Node) :
    Except EscapeError (Option Text) :=
  match plainName? source (call.child? .function) with
  | none => .ok none
  | some function =>
    if !isContainer (aliases.functions.resolve function) then .ok none
    else
      match (argumentsOf call).head?.bind (·.namedChildren.getLast?) with
      | none => .ok none
      | some argument => value? source argument

/-- The name of the object whose method is called: that of a variable, of a property or of a
service. Brackets around it do not count. -/
def receiver? (source : List Char) (aliases : Aliases) (object : Node) :
    Except EscapeError (Option Text) :=
  match object.kind with
  | .variable => .ok (some ((object.text source).dropWhile (·.is '$')))
  | .member | .nullsafeMember => .ok (plainName? source (object.child? .name))
  | .functionCall => serviceName? source aliases object
  | .parenthesized =>
    match found : object.namedChildren.getLast? with
    | some inner =>
      have : inner.size < object.size := Node.sizeOfNamed (List.mem_of_getLast? found)
      receiver? source aliases inner
    | none => .ok none
  | _ => .ok none
termination_by object.size

def functionLabel? (source : List Char) (targets : Targets) (aliases : Aliases) (call : Node) :
    Option Text := do
  let name ← plainName? source (call.child? .function)
  let function := aliases.functions.resolve name
  if targets.functions.contains (Text.lower function) then some function else none

def staticLabel? (source : List Char) (targets : Targets) (aliases : Aliases) (call : Node) :
    Option Text := do
  let scope ← plainName? source (call.child? .scope)
  let method ← plainName? source (call.child? .name)
  let owner := aliases.classes.resolve scope
  if targets.statics.contains (Text.lower owner, Text.lower method) then
    some (owner ++ "::" ++ method)
  else none

def methodLabel? (source : List Char) (targets : Targets) (aliases : Aliases) (call : Node) :
    Except EscapeError (Option Text) := do
  let method := plainName? source (call.child? .name)
  let receiver ←
    match call.child? .object with
    | none => pure none
    | some object => receiver? source aliases object
  match method, receiver with
  | some method, some receiver =>
    if targets.methods.contains (Text.lower receiver, Text.lower method) then
      return some (receiver ++ "->" ++ method)
    else return none
  | _, _ => return none

/-- The label of a call to one of the targets. -/
def label? (source : List Char) (targets : Targets) (aliases : Aliases) (node : Node) :
    Except EscapeError (Option Text) :=
  match node.kind with
  | .functionCall => .ok (functionLabel? source targets aliases node)
  | .staticCall => .ok (staticLabel? source targets aliases node)
  | .memberCall | .nullsafeCall => methodLabel? source targets aliases node
  | _ => .ok none

/-- The call site at a node, if there is one. -/
def siteAt? (program : Program) (targets : Targets) (aliases : Aliases) (node : Node) :
    Except EscapeError (Option Site) := do
  match ← label? program.source.written targets aliases node with
  | none => return none
  | some label =>
    return some ⟨node, label, program.source.position node.start, argumentsOf node⟩

/-- The call sites of a program, outer ones before inner ones and then in the order of the text.
The aliases of the whole file hold everywhere in it. -/
def sites (program : Program) (targets : Targets) : Except EscapeError (List Site) := do
  let aliases := program.aliases
  return (← program.root.nodes.mapM (siteAt? program targets aliases)).reduceOption

end Untranslated.Call
