/-
This file reads the syntax tree of a PHP file, or finds the place of a syntax error.
An error is told by the cheapest repair that lets the rest of the file be read.
-/

import Untranslated.Php.Grammar.Statement
import Untranslated.Php.Lexer
import Untranslated.Php.SyntaxError
import Untranslated.Text.Blank

namespace Untranslated.Php

open Grammar

/-- A program is a source and its syntax tree. -/
structure Program where
  source : Source
  root : Node

/-- The depth of a reading is bounded by the number of tokens. -/
def readingDepth (count : Nat) : Nat := 64 * (count + 8)

/-- The tree of a whole file, or the failure that stops the reading. -/
def read (tokens : List Token) : Except Failure Tree := do
  let ahead := tokens.map (·.lexeme)
  let (children, rest) ← run grammar (readingDepth ahead.length) (.rule .program) ahead
  match children, rest with
  | [(_, tree)], [] => return tree
  | _, _ => failAt rest ""

/-- What is wrong: a token is missing, or a stretch of text has no place. -/
inductive Complaint where
  | expected (wanted : String) (offset : Nat)
  | unexpected (start stop : Nat)
deriving DecidableEq

def Complaint.offset : Complaint → Nat
  | .expected _ offset => offset
  | .unexpected start _ => start

/-- A repair changes the tokens at a cost. -/
structure Repair where
  cost : Nat
  complaint : Complaint
  tokens : List Token

def repairCost : Nat := 500

def skippedCost : Nat := 100

def missingCost : Nat := 110

/-- A missing token is inserted at the end of the one before, and the first one at the start of
the one after. -/
def insertion (wanted : String) (before after : List Token) : Repair :=
  let offset := ((before.getLast?.map (·.stop)).or (after.head?.map (·.start))).getD 0
  let isWord := wanted.toList.all Char.isAlpha
  let lexeme : Lexeme := ⟨if isWord then .word else .mark, wanted, false⟩
  { cost := repairCost + missingCost
    complaint := .expected wanted offset
    tokens := before ++ ⟨lexeme, [], offset, offset⟩ :: after }

/-- Skipped tokens cost by their number and by the length of their text. -/
def omission (before skipped after : List Token) : Option Repair :=
  match skipped.head?, skipped.getLast? with
  | some first, some last =>
    if last.lexeme.shape == .ending then none
    else
      some {
        cost := repairCost + skippedCost * skipped.length + (last.stop - first.start)
        complaint := .unexpected first.start last.stop
        tokens := before ++ after }
  | _, _ => none

/-- At most so many tokens are skipped in front of the one that has no place. -/
def reach : Nat := 12

/-- The repairs at a token: the wanted one is inserted, or this one is skipped, perhaps with some
before it. At the beginning of a file the first token can be skipped alone. -/
def repairs (tokens : List Token) (failure : Failure) : List Repair :=
  let place := tokens.length - failure.remaining
  let before := tokens.take place
  let after := tokens.drop place
  let inserted := if failure.wanted.isEmpty then [] else [insertion failure.wanted before after]
  let skipped := (List.range (min reach place + 1)).filterMap fun count =>
    omission (before.take (place - count)) (before.drop (place - count) ++ after.take 1)
      (after.drop 1)
  let first := if place == 1 then (omission [] before after).toList else []
  inserted ++ skipped ++ first

def cheaper (a b : Nat × Complaint) : Nat × Complaint := if b.1 < a.1 then b else a

def earlier (a b : Complaint) : Complaint := if b.offset < a.offset then b else a

/-- The cost of a file that cannot be repaired. -/
def hopeless : Nat := 100000

/-- The cost of the cheapest repairs, and the first complaint in the text. -/
def mend : Nat → List Token → Option (Nat × Complaint)
  | 0, tokens =>
    match read tokens with
    | .ok _ => none
    | .error failure =>
      let token := tokens[tokens.length - failure.remaining]?
      some (hopeless, .unexpected ((token.map (·.start)).getD 0) ((token.map (·.stop)).getD 0))
  | depth + 1, tokens =>
    match read tokens with
    | .ok _ => none
    | .error failure =>
      let token := tokens[tokens.length - failure.remaining]?
      let fallback : Complaint :=
        .unexpected ((token.map (·.start)).getD 0) ((token.map (·.stop)).getD 0)
      let mended := (repairs tokens failure).map fun repair =>
        match mend depth repair.tokens with
        | none => (repair.cost, repair.complaint)
        | some (cost, complaint) => (repair.cost + cost, earlier repair.complaint complaint)
      some (mended.foldl cheaper (2 * hopeless, fallback))

/-- At most so many repairs are tried together. -/
def repairDepth : Nat := 2

def snippetLength : Nat := 40

/-- The beginning of the first line of what has no place. -/
def snippet (cs : List Char) : Text :=
  ((Text.strip (Text.ofChars cs)).takeWhile (!Text.isLineEnd ·)).take snippetLength

def Complaint.message (source : Source) : Complaint → Text
  | .expected wanted _ => "syntax error, expected '" ++ Text.ofString wanted ++ "'"
  | .unexpected start stop =>
    match snippet (slice source.written start stop) with
    | [] => "syntax error"
    | near => "syntax error, unexpected '" ++ near ++ "'"

def complaintOf (tokens : List Token) : Complaint :=
  match mend repairDepth tokens with
  | some (_, complaint) => complaint
  | none => .unexpected 0 0

/-- A source that cannot be read. Its complaint is looked for only where it is shown. -/
structure Unreadable where
  source : Source
  path : Option Text

def Unreadable.syntaxError (e : Unreadable) : SyntaxError :=
  let complaint := complaintOf (tokens e.source.masked)
  let position := e.source.position complaint.offset
  ⟨complaint.message e.source, e.path, some position.line, some position.column⟩

/-- The syntax tree of a text that comes from a path. -/
def parse (text : List Char) (path : Option Text) : Except Unreadable Program :=
  let source := Source.ofChars text
  let tokens := tokens source.masked
  match read tokens with
  | .ok tree => .ok ⟨source, tree.toNode tokens⟩
  | .error _ => .error ⟨source, path⟩

end Untranslated.Php
