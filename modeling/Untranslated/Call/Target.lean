/-
This file defines the calls to look for, as they are configured.
All names are reduced to their last segments and to lower case, for they have no case.
-/

import Untranslated.Json.Value
import Untranslated.Php.Import

namespace Untranslated.Call

open Json (Value)
open Php (shortName)

/-- The names of functions, and the pairs of classes or receivers with their methods. -/
structure Targets where
  functions : List Text
  statics : List (Text × Text)
  methods : List (Text × Text)

/-- A function is known by its short name in lower case. -/
def functionName (name : Text) : Text := Text.lower (shortName name)

/-- A class or a receiver may be written with a dollar sign. -/
def ownerName (name : Text) : Text :=
  (Text.lower (shortName name)).dropWhile (·.is '$')

/-- A pair is known by its two names in lower case. -/
def pairName (pair : Text × Text) : Text × Text := (ownerName pair.1, Text.lower pair.2)

def Targets.ofNames (functions : List Text) (statics methods : List (Text × Text)) : Targets where
  functions := Text.unique (functions.map functionName)
  statics := Text.unique (statics.map pairName)
  methods := Text.unique (methods.map pairName)

def Targets.isEmpty (targets : Targets) : Bool :=
  targets.functions.isEmpty && targets.statics.isEmpty && targets.methods.isEmpty

def defaultFunctions : List Text := ["__", "trans", "trans_choice"]

def defaultStatics : List (Text × Text) :=
  [("Lang", "get"), ("Lang", "choice"), ("Lang", "trans"), ("Lang", "transChoice")]

def defaultMethods : List (Text × Text) := [("translator", "get"), ("translator", "choice")]

def Targets.default : Targets := .ofNames defaultFunctions defaultStatics defaultMethods

/-- What is wrong with an entry: its type, the number of its parts or the form of its text. -/
inductive TargetError where
  | notIterable (type : String)
  | notPair (type : String)
  | tooFew (count : Nat)
  | tooMany
  | malformed (separator : String) (entry : Text)

def TargetError.message : TargetError → Text
  | .notIterable type => Text.ofString s!"'{type}' object is not iterable"
  | .notPair type => Text.ofString s!"cannot unpack non-iterable {type} object"
  | .tooFew count => Text.ofString s!"not enough values to unpack (expected 2, got {count})"
  | .tooMany => "too many values to unpack (expected 2)"
  | .malformed separator entry =>
    Text.ofString s!"expected 'name{separator}method', got " ++ Text.quoted entry

/-- An entry of the wrong type is told from one with a wrong value. -/
def TargetError.isTypeError : TargetError → Bool
  | .notIterable _ | .notPair _ => true
  | _ => false

/-- The values that an entry holds one after the other. -/
def elements (value : Value) : Except TargetError (List Value) :=
  match value.elements? with
  | some items => .ok items
  | none => .error (.notIterable value.typeName)

/-- A text names one function. -/
def functionsOf : Option Value → Except TargetError (List Text)
  | none => .ok defaultFunctions
  | some (.string name) => .ok [name]
  | some value => (elements value).map (·.map Value.bare)

/-- The two sides of the separator. Neither may be empty. -/
def splitPair (separator : String) (entry : Text) : Except TargetError (Text × Text) :=
  match Text.splitOnce? separator entry with
  | some (owner, method) =>
    if owner.isEmpty || method.isEmpty then .error (.malformed separator entry)
    else .ok (owner, method)
  | none => .error (.malformed separator entry)

/-- A pair is a text with a separator, or a row of two values. -/
def pairOf (separator : String) : Value → Except TargetError (Text × Text)
  | .string entry => splitPair separator entry
  | value =>
    match value.elements? with
    | none => .error (.notPair value.typeName)
    | some [owner, method] => .ok (owner.bare, method.bare)
    | some items => .error (if items.length < 2 then .tooFew items.length else .tooMany)

/-- The pairs of an entry, or the standard ones if it is missing. -/
def pairsOf (separator : String) (standard : List (Text × Text)) :
    Option Value → Except TargetError (List (Text × Text))
  | none => .ok standard
  | some value => do (← elements value).mapM (pairOf separator)

/-- A missing entry has its default. -/
def Targets.ofMembers (members : List (Text × Value)) : Except TargetError Targets := do
  let functions ← functionsOf (Value.lookup? members "functions")
  let statics ← pairsOf "::" defaultStatics (Value.lookup? members "static")
  let methods ← pairsOf "->" defaultMethods (Value.lookup? members "method")
  return .ofNames functions statics methods

end Untranslated.Call
