/-
This file defines JSON values and the texts that show them in messages.
-/

import Untranslated.Decimal.Shortest
import Untranslated.Text.Quoted

namespace Untranslated.Json

open Decimal (Binary64)

/-- An object keeps the order in which its names first appeared. -/
inductive Value where
  | null
  | bool (value : Bool)
  | integer (value : Int)
  | real (value : Binary64)
  | string (value : Text)
  | array (items : List Value)
  | object (members : List (Text × Value))

namespace Value

/-- A name that comes again takes the later value at its first place. -/
def insert (members : List (Text × Value)) (name : Text) (value : Value) :
    List (Text × Value) :=
  match members with
  | [] => [(name, value)]
  | (other, old) :: rest =>
    if other = name then (other, value) :: rest else (other, old) :: insert rest name value

def lookup? (members : List (Text × Value)) (name : Text) : Option Value :=
  (members.find? (·.1 = name)).map (·.2)

mutual

/-- The form in which a message shows a value. -/
def described : Value → Text
  | .null => "None"
  | .bool true => "True"
  | .bool false => "False"
  | .integer n => Text.ofInt n
  | .real x => Text.ofString x.text
  | .string t => Text.quoted t
  | .array items => Text.ofString "[" ++ describedItems items ++ Text.ofString "]"
  | .object members => Text.ofString "\x7b" ++ describedMembers members ++ Text.ofString "\x7d"

def describedItems : List Value → Text
  | [] => []
  | [last] => described last
  | first :: second :: rest =>
    described first ++ Text.ofString ", " ++ describedItems (second :: rest)

def describedMembers : List (Text × Value) → Text
  | [] => []
  | [(name, value)] => Text.quoted name ++ Text.ofString ": " ++ described value
  | (name, value) :: second :: rest =>
    Text.quoted name ++ Text.ofString ": " ++ described value ++ Text.ofString ", " ++
      describedMembers (second :: rest)

end

/-- The bare form of a value. A string is not quoted. -/
def bare : Value → Text
  | .string t => t
  | other => described other

/-- The word by which a message calls the type of a value. -/
def typeName : Value → String
  | .null => "NoneType"
  | .bool _ => "bool"
  | .integer _ => "int"
  | .real _ => "float"
  | .string _ => "str"
  | .array _ => "list"
  | .object _ => "dict"

/-- The values that a value holds in order: the characters of a string, the items of an array, the
names of an object. -/
def elements? : Value → Option (List Value)
  | .string t => some (t.map fun c => .string [c])
  | .array items => some items
  | .object members => some (members.map fun (name, _) => .string name)
  | _ => none

end Value

end Untranslated.Json
