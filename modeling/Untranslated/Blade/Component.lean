/-
This file finds the bound attributes of a component tag.
-/

import Untranslated.Blade.Directive
import Untranslated.Text.Blank

namespace Untranslated.Blade

open Text (isBlankChar isWordChar)

def isAttributeCharacter (c : Char) : Bool :=
  isWordChar c || c == '.' || c == ':' || c == '-'

/-- A bound attribute has a name, an equals sign among blanks, and an expression in quotes. -/
structure Binding where
  name : List Char
  beforeSign : List Char
  afterSign : List Char
  mark : Char
  expression : List Char
deriving DecidableEq

/-- The text that a bound attribute is written as. -/
def Binding.written (binding : Binding) : List Char :=
  ':' :: binding.name ++ binding.beforeSign ++ '=' :: binding.afterSign ++
    binding.mark :: binding.expression ++ [binding.mark]

def Binding.size (binding : Binding) : Nat := binding.written.length

/-- A colon after one of these characters begins no bound attribute. -/
def joinsColon (previous : Option Char) : Bool :=
  previous.any fun c => isWordChar c || c == ':' || c == '-'

/-- The text up to the mark, if the mark comes at all. -/
def upTo? (mark : Char) (cs : List Char) : Option (List Char) :=
  if cs.contains mark then some (cs.takeWhile (· != mark)) else none

/-- A single colon, a name, an equals sign and a quoted expression. -/
def binding? (previous : Option Char) (cs : List Char) : Option Binding :=
  match cs with
  | ':' :: rest =>
    if joinsColon previous || rest.head? == some ':' then none
    else
      let name := rest.takeWhile isAttributeCharacter
      let beforeSign := (rest.drop name.length).takeWhile isBlankChar
      match rest.drop (name.length + beforeSign.length) with
      | '=' :: value =>
        let afterSign := value.takeWhile isBlankChar
        match value.drop afterSign.length with
        | mark :: quoted =>
          if name.isEmpty || !isQuote mark then none
          else
            (upTo? mark quoted).map fun expression =>
              ⟨name, beforeSign, afterSign, mark, expression⟩
        | [] => none
      | _ => none
  | _ => none

/-- A tag is plain text with bound attributes between its pieces. -/
structure Tag where
  start : List Char
  bound : List (Binding × List Char)
deriving DecidableEq

def Tag.cons (c : Char) (tag : Tag) : Tag := { tag with start := c :: tag.start }

def Tag.bind (binding : Binding) (tag : Tag) : Tag := ⟨[], (binding, tag.start) :: tag.bound⟩

/-- The rest of a tag after so many characters of an attribute, which are kept or left out. An
attribute with a blank expression is kept. -/
def tagAfter : Nat → Bool → Option Char → List Char → Tag
  | _, _, _, [] => ⟨[], []⟩
  | skipped + 1, kept, _, c :: rest =>
    let tag := tagAfter skipped kept (some c) rest
    if kept then tag.cons c else tag
  | 0, _, previous, c :: rest =>
    match binding? previous (c :: rest) with
    | none => (tagAfter 0 true (some c) rest).cons c
    | some binding =>
      if binding.expression.all isBlankChar then
        (tagAfter (binding.size - 1) true (some c) rest).cons c
      else (tagAfter (binding.size - 1) false (some c) rest).bind binding

def Tag.ofChars (cs : List Char) : Tag := tagAfter 0 true none cs

/-- The length of a tag up to and with its closing mark. Quoted marks do not close it, and a tag
that is never closed reaches to the end. -/
def tagLength : Option Char → List Char → Nat
  | _, [] => 0
  | some mark, c :: rest => 1 + tagLength (if c == mark then none else some mark) rest
  | none, c :: rest =>
    if c == '>' then 1
    else 1 + tagLength (if isQuote c then some c else none) rest

end Untranslated.Blade
