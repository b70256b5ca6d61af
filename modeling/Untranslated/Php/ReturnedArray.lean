/-
This file reads the keys of the array that a PHP file returns.
Nested arrays give dotted keys.
-/

import Untranslated.Php.Literal.Value
import Untranslated.Php.Syntax
import Untranslated.Text.Digit

namespace Untranslated.Php

open Literal (EscapeError value?)
open Text (decimal? isDigitLike)

/-- A key cannot be read if an escape in it is oversized, or if it looks like a number and cannot
be counted on from. -/
inductive KeyError where
  | escape (e : EscapeError)
  | numeral
deriving DecidableEq

/-- Numbers with more decimal digits are not read or written. -/
def numeralLimit : Nat := 4300

/-- An entry of an array has a key and a value. -/
structure Entry where
  key : Text
  value : Node

/-- The key that is written for an element. An integer keeps the form that it is written in. -/
def writtenKey? (source : List Char) (node : Node) : Except KeyError (Option Text) :=
  if node.kind == .integer then .ok (some (node.text source))
  else
    match value? source node with
    | .ok key => .ok key
    | .error e => .error (.escape e)

/-- The index after a key. Keys that are no numbers do not count. -/
def indexAfter (index : Nat) (key : Text) : Except KeyError Nat :=
  if key.isEmpty || !key.all isDigitLike then .ok index
  else if numeralLimit < key.length then .error .numeral
  else
    match decimal? key with
    | some n => .ok (max index (n + 1))
    | none => .error .numeral

/-- The key of an element without one. -/
def indexKey (index : Nat) : Except KeyError Text :=
  let key := Text.ofNat index
  if numeralLimit < key.length then .error .numeral else .ok key

/-- The entry of an element, and the next index. Unpacked arrays and elements with a key that is
not static give none. -/
def entryAt (source : List Char) (index : Nat) (element : Node) :
    Except KeyError (Nat × Option Entry) :=
  match element.parts with
  | [written, value] => do
    match ← writtenKey? source written with
    | none => return (index, none)
    | some key => return (← indexAfter index key, some ⟨key, value⟩)
  | [value] =>
    if value.kind == .spread then .ok (index, none)
    else do
      let key ← indexKey index
      return (index + 1, some ⟨key, value⟩)
  | _ => .ok (index, none)

/-- The entries of the elements in order. A fault comes last. -/
def entriesFrom (source : List Char) (index : Nat) : List Node → List (Except KeyError Entry)
  | [] => []
  | element :: rest =>
    match entryAt source index element with
    | .error e => [.error e]
    | .ok (next, none) => entriesFrom source next rest
    | .ok (next, some entry) => .ok entry :: entriesFrom source next rest

def elementsOf (array : Node) : List Node := array.namedChildren.filter (·.kind == .arrayElement)

def entries (source : List Char) (array : Node) : List (Except KeyError Entry) :=
  entriesFrom source 0 (elementsOf array)

/-- A key below a start. An empty start does not count. -/
def dotted (start key : Text) : Text := if start.isEmpty then key else start ++ "." ++ key

/-- The keys of an array below a start, down to a depth. Each stands before those inside it. -/
def keysToDepth (source : List Char) :
    Nat → Text → Node → Except KeyError (List Text)
  | 0, _, _ => .ok []
  | depth + 1, start, array => do
    let groups ← (entries source array).mapM fun attempt => do
      let entry ← attempt
      let key := dotted start entry.key
      if entry.value.kind == .array then
        return key :: (← keysToDepth source depth key entry.value)
      else return [key]
    return groups.flatten

/-- The array of the first return statement, if that returns an array. -/
def Program.returnedArray? (program : Program) : Option Node := do
  let statement ← program.root.nodes.find? (·.kind == .returnStatement)
  let value ← statement.namedChildren.head?
  if value.kind == .array then some value else none

/-- The keys of the returned array without repetition. They are absent if there is no array. -/
def Program.returnedKeys (program : Program) : Except KeyError (Option (List Text)) :=
  match program.returnedArray? with
  | none => .ok none
  | some array => do
    let keys ← keysToDepth program.source.written array.size [] array
    return some (Text.unique keys)

end Untranslated.Php
