/-
This file defines a language of grammar patterns and the reader that runs them.
A pattern chooses its way by the tokens ahead, so the reader never goes back.
-/

import Untranslated.Php.Tree

namespace Untranslated.Php.Grammar

/-- The tokens that are still to be read. -/
abbrev Ahead := List Lexeme

/-- A pattern over rules by name. `look` chooses by the tokens ahead, `many` repeats while a test
holds, and `grow` makes a tree the first part of larger trees as long as the tokens ahead allow. -/
inductive Pattern (Rule : Type) where
  | nothing
  | fail (wanted : String)
  | token (kind : Kind) (accepts : Lexeme → Bool) (wanted : String)
  | separator
  | rule (rule : Rule)
  | seq (first second : Pattern Rule)
  | look (choose : Ahead → Pattern Rule)
  | many (goes : Ahead → Bool) (body : Pattern Rule)
  | node (kind : Kind) (body : Pattern Rule)
  | part (role : Role) (body : Pattern Rule)
  | grow (first : Pattern Rule)
      (next : Tree → Ahead → Option (Pattern Rule × (Tree → List Child → Tree)))

instance {Rule : Type} : Append (Pattern Rule) := ⟨.seq⟩

/-- Reading stops at a token. The tokens from it on are counted, and what would have fitted
instead is named. -/
structure Failure where
  remaining : Nat
  wanted : String
deriving DecidableEq

def failAt {A : Type} (ahead : Ahead) (wanted : String) : Except Failure A :=
  .error ⟨ahead.length, wanted⟩

def isMark (spelling : String) (l : Lexeme) : Bool :=
  l.shape == .mark && l.spelling == spelling

def isKeyword (spelling : String) (l : Lexeme) : Bool :=
  l.shape == .word && l.spelling == spelling

def relabel (role : Role) : List Child → List Child
  | [(_, tree)] => [(role, tree)]
  | children => children

mutual

/-- The trees that a pattern reads, and the tokens after them. The fuel bounds the depth. -/
def run {Rule : Type} (grammar : Rule → Pattern Rule) :
    Nat → Pattern Rule → Ahead → Except Failure (List Child × Ahead)
  | 0, _, ahead => failAt ahead ""
  | _ + 1, .nothing, ahead => .ok ([], ahead)
  | _ + 1, .fail wanted, ahead => failAt ahead wanted
  | _ + 1, .token kind accepts wanted, ahead =>
    match ahead with
    | [] => failAt ahead wanted
    | l :: rest =>
      if accepts l then .ok ([(.none, .leaf kind l)], rest) else failAt ahead wanted
  | _ + 1, .separator, ahead =>
    match ahead with
    | [] => failAt ahead ";"
    | l :: rest =>
      if l.afterBreak then .ok ([(.none, .separator)], ahead)
      else if isMark ";" l then .ok ([(.none, .leaf .token l)], rest)
      else failAt ahead ";"
  | fuel + 1, .rule rule, ahead => run grammar fuel (grammar rule) ahead
  | fuel + 1, .seq first second, ahead => do
    let (before, middle) ← run grammar fuel first ahead
    let (after, rest) ← run grammar fuel second middle
    return (before ++ after, rest)
  | fuel + 1, .look choose, ahead => run grammar fuel (choose ahead) ahead
  | fuel + 1, .many goes body, ahead =>
    if goes ahead then do
      let (first, middle) ← run grammar fuel body ahead
      let (others, rest) ← run grammar fuel (.many goes body) middle
      return (first ++ others, rest)
    else .ok ([], ahead)
  | fuel + 1, .node kind body, ahead => do
    let (children, rest) ← run grammar fuel body ahead
    return ([(.none, .branch kind children)], rest)
  | fuel + 1, .part role body, ahead => do
    let (children, rest) ← run grammar fuel body ahead
    return (relabel role children, rest)
  | fuel + 1, .grow first next, ahead => do
    let (children, rest) ← run grammar fuel first ahead
    match children with
    | [(_, tree)] => extend grammar fuel next tree rest
    | _ => return (children, rest)

/-- A tree grows while the tokens ahead continue it. -/
def extend {Rule : Type} (grammar : Rule → Pattern Rule) :
    Nat → (Tree → Ahead → Option (Pattern Rule × (Tree → List Child → Tree))) → Tree → Ahead →
      Except Failure (List Child × Ahead)
  | 0, _, _, ahead => failAt ahead ""
  | fuel + 1, next, tree, ahead =>
    match next tree ahead with
    | none => .ok ([(.none, tree)], ahead)
    | some (continuation, combine) => do
      let (children, rest) ← run grammar fuel continuation ahead
      extend grammar fuel next (combine tree children) rest

end

def headIs (test : Lexeme → Bool) (ahead : Ahead) : Bool := ahead.head?.any test

def atMark (spelling : String) (ahead : Ahead) : Bool := headIs (isMark spelling) ahead

def atKeyword (spelling : String) (ahead : Ahead) : Bool := headIs (isKeyword spelling) ahead

def atOneOf (spellings : List String) (ahead : Ahead) : Bool :=
  headIs (fun l => l.shape == .mark && spellings.contains l.spelling) ahead

def atKeywords (spellings : List String) (ahead : Ahead) : Bool :=
  headIs (fun l => l.shape == .word && spellings.contains l.spelling) ahead

def atWord (ahead : Ahead) : Bool := headIs (·.shape == .word) ahead

def atEnding (ahead : Ahead) : Bool := ahead.head?.all (·.shape == .ending)

def afterBreak (ahead : Ahead) : Bool := headIs (·.afterBreak) ahead

def isOpening (l : Lexeme) : Bool :=
  l.shape == .mark && ["(", "[", "\x7b", "#[", "$\x7b"].contains l.spelling

def isClosing (l : Lexeme) : Bool :=
  l.shape == .mark && [")", "]", "\x7d"].contains l.spelling

/-- The tokens after the bracket that closes as many brackets as the depth says. -/
def afterClosing : Nat → Ahead → Ahead
  | _, [] => []
  | depth, l :: rest =>
    if isOpening l then afterClosing (depth + 1) rest
    else if isClosing l then
      if depth ≤ 1 then rest else afterClosing (depth - 1) rest
    else if depth == 0 then rest
    else afterClosing depth rest

/-- The tokens after a bracketed group that stands ahead. -/
def afterGroup (ahead : Ahead) : Ahead := afterClosing 0 ahead

section

variable {Rule : Type}

def mark (spelling : String) : Pattern Rule := .token .token (isMark spelling) spelling

def keyword (spelling : String) : Pattern Rule := .token .token (isKeyword spelling) spelling

def anyMark (spellings : List String) : Pattern Rule :=
  .token .token (fun l => l.shape == .mark && spellings.contains l.spelling) ""

def anyKeyword (spellings : List String) : Pattern Rule :=
  .token .token (fun l => l.shape == .word && spellings.contains l.spelling) ""

def name : Pattern Rule := .token .name (·.shape == .word) "name"

def shaped (kind : Kind) (shape : Shape) : Pattern Rule :=
  .token kind (·.shape == shape) "name"

def optional (test : Ahead → Bool) (body : Pattern Rule) : Pattern Rule :=
  .look fun ahead => if test ahead then body else .nothing

def either (test : Ahead → Bool) (first second : Pattern Rule) : Pattern Rule :=
  .look fun ahead => if test ahead then first else second

/-- One or more items with commas between them. -/
def separated (item : Pattern Rule) : Pattern Rule :=
  item ++ .many (atMark ",") (mark "," ++ item)

/-- A comma that is not the last before a closing mark. -/
def innerComma (closing : String) (ahead : Ahead) : Bool :=
  atMark "," ahead && !atMark closing (ahead.drop 1)

/-- One or more items with commas between them, and perhaps one at the end. -/
def listed (closing : String) (item : Pattern Rule) : Pattern Rule :=
  item ++ .many (innerComma closing) (mark "," ++ item) ++ optional (atMark ",") (mark ",")

end

end Untranslated.Php.Grammar
