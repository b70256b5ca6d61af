/-
This file reads the names that the use declarations of a file import.
-/

import Untranslated.Php.Literal.Value
import Untranslated.Php.Syntax
import Untranslated.Text.Lower

namespace Untranslated.Php

open Text (isBlank isWord)

inductive ImportKind where
  | classLike
  | function
  | constant
deriving DecidableEq

/-- An import binds an alias, which is a single word, to a qualified name. -/
structure Import where
  kind : ImportKind
  name : Text
  bound : Text
deriving DecidableEq

def isBackslash (c : CodePoint) : Bool := c.is '\\'

def isNameCharacter (c : CodePoint) : Bool := isWord c || isBackslash c

/-- The last segment of a qualified name. -/
def shortName (name : Text) : Text :=
  ((Text.strip name).reverse.takeWhile (!isBackslash ·)).reverse

/-- The small letter for which a keyword takes a code point. It takes a long s for an s, an i with
a dot or without one for an i, and the sign of the kelvin for a k. -/
def keywordLetter? (c : CodePoint) : Option Char :=
  if c.value = 0x17F then some 's'
  else if c.value = 0x130 ∨ c.value = 0x131 then some 'i'
  else if c.value = 0x212A then some 'k'
  else c.toChar?.map lowerAscii

/-- Text equal up to the case of letters. -/
def matchesKeyword (keyword : String) (t : Text) : Bool :=
  t.map keywordLetter? == keyword.toList.map some

/-- The kind that a keyword stands for. One that has a letter from beyond ASCII stands for
nothing, and what it introduces binds no alias, as a constant does not. -/
def keywordKind (word : Text) : ImportKind :=
  if Text.lower word = Text.ofString "function" then .function else .constant

def importKind? (word : Text) : Option ImportKind :=
  if matchesKeyword "function" word || matchesKeyword "const" word then some (keywordKind word)
  else none

def isImportedName (word : Text) : Bool := !word.isEmpty && word.all isNameCharacter

def isAlias (word : Text) : Bool := !word.isEmpty && word.all isWord

/-- A name with an alias, or a name alone under its last segment. -/
def plainClause? (kind : ImportKind) (start : Text) : List Text → Option Import
  | [name] =>
    let full := start ++ name.dropWhile isBackslash
    if isImportedName name then some ⟨kind, full, shortName full⟩ else none
  | [name, word, bound] =>
    if isImportedName name && matchesKeyword "as" word && isAlias bound then
      some ⟨kind, start ++ name.dropWhile isBackslash, bound⟩
    else none
  | _ => none

/-- A clause may begin with a kind of its own. The start is that of its group. -/
def clause? (kind : ImportKind) (start : Text) (words : List Text) : Option Import :=
  let own := do
    let word ← words.head?
    let own ← importKind? word
    plainClause? own start (words.drop 1)
  own <|> plainClause? kind start words

/-- The start and the inside of a group, if a body has the form of one. -/
def group? (body : Text) : Option (Text × Text) :=
  let start := body.takeWhile isNameCharacter
  match body.drop start.length with
  | c :: d :: rest =>
    if c.is '\x7b' && (d :: rest).getLast?.any (·.is '\x7d') then
      some (Text.trimEnd isBackslash start, (d :: rest).dropLast)
    else none
  | _ => none

/-- Blanks, perhaps a semicolon, and blanks again end a declaration. -/
def withoutSemicolon (t : Text) : Text :=
  let body := Text.trimEnd isBlank t
  if Text.endsWith ";" body then Text.trimEnd isBlank body.dropLast else body

/-- A blank has to follow the keyword. -/
def afterKeyword? (keyword : String) (t : Text) : Option Text :=
  let rest := t.drop keyword.length
  if matchesKeyword keyword (t.take keyword.length) && rest.head?.any isBlank then
    some (rest.dropWhile isBlank)
  else none

/-- The kind of a whole declaration, and what follows it. -/
def declarationKind (t : Text) : ImportKind × Text :=
  match afterKeyword? "function" t, afterKeyword? "const" t with
  | some rest, _ => (keywordKind (t.take "function".length), rest)
  | none, some rest => (keywordKind (t.take "const".length), rest)
  | none, none => (.classLike, t)

/-- The imports of one declaration from left to right. A clause with a comment in it is none. -/
def importsOf (declaration : Text) : List Import :=
  match afterKeyword? "use" (declaration.dropWhile isBlank) with
  | none => []
  | some rest =>
    let (kind, rest) := declarationKind rest
    let body := withoutSemicolon rest
    let (start, inside) :=
      match group? (Text.strip body) with
      | some (start, inside) => (if start.isEmpty then [] else start ++ Text.ofString "\\", inside)
      | none => ([], body)
    (Text.splitAtChar ',' inside).filterMap fun part => clause? kind start (Text.words part)

/-- Lower-case aliases with the last segments of the names they stand for. -/
abbrev AliasTable := List (Text × Text)

def AliasTable.bind (word name : Text) (table : AliasTable) : AliasTable :=
  (word, name) :: table.filter (·.1 ≠ word)

def AliasTable.lookup? (word : Text) (table : AliasTable) : Option Text :=
  (table.find? (·.1 = word)).map (·.2)

/-- A name with a backslash stands for its last segment, any other for what its alias says. -/
def AliasTable.resolve (table : AliasTable) (name : Text) : Text :=
  let bare := Text.strip name
  if bare.any isBackslash then shortName bare
  else (table.lookup? (Text.lower bare)).getD bare

/-- The aliases of a file. -/
structure Aliases where
  classes : AliasTable
  functions : AliasTable

def Aliases.add (aliases : Aliases) (imported : Import) : Aliases :=
  let word := Text.lower imported.bound
  let name := shortName imported.name
  match imported.kind with
  | .function => { aliases with functions := aliases.functions.bind word name }
  | .classLike => { aliases with classes := aliases.classes.bind word name }
  | .constant => aliases

/-- The imports of a program in the order of its text. -/
def Program.imports (program : Program) : List Import :=
  (program.root.nodes.filter (·.kind == .useDeclaration)).flatMap fun node =>
    importsOf (node.text program.source.written)

/-- A later import of an alias wins. -/
def Program.aliases (program : Program) : Aliases :=
  program.imports.foldl Aliases.add ⟨[], []⟩

end Untranslated.Php
