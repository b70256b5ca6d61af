/-
This file defines the text of a PHP file, its masked form and the places in it.
-/

import Untranslated.Text.CodePoint

namespace Untranslated.Php

/-- A place gives a line and a column. Both start at one and count characters. -/
structure Position where
  line : Nat
  column : Nat
deriving DecidableEq

/-- The characters after the last newline. -/
def lastLine (before : List Char) : List Char := (before.reverse.takeWhile (· != '\n')).reverse

/-- A newline ends a line, and no other character does. -/
def Position.after (before : List Char) : Position where
  line := before.count '\n' + 1
  column := (lastLine before).length + 1

def Position.start : Position := ⟨1, 1⟩

/-- A character leads to the next column, or a newline to the next line. -/
def Position.step (place : Position) (c : Char) : Position :=
  if c = '\n' then ⟨place.line + 1, 1⟩ else ⟨place.line, place.column + 1⟩

/-- The place after so many characters of a text. -/
def Position.advance : Nat → Position → List Char → Position
  | 0, place, _ => place
  | _ + 1, place, [] => place
  | count + 1, place, c :: rest => Position.advance count (place.step c) rest

/-- Going on takes the characters one by one. -/
theorem advanceTake (count : Nat) (place : Position) (text : List Char) :
    place.advance count text = (text.take count).foldl Position.step place := by
  induction count generalizing place text with
  | zero => cases text <;> rfl
  | succ count inductionHypothesis =>
      cases text with
      | nil => rfl
      | cons c rest => exact inductionHypothesis (place.step c) rest

/-- A newline ends the last line, and any other character goes on with it. -/
theorem lastLineSnoc (before : List Char) (c : Char) :
    lastLine (before ++ [c]) = if c = '\n' then [] else lastLine before ++ [c] := by
  by_cases newline : c = '\n' <;> simp [lastLine, newline]

/-- The place after one more character is one step further. -/
theorem afterSnoc (before : List Char) (c : Char) :
    Position.after (before ++ [c]) = (Position.after before).step c := by
  by_cases newline : c = '\n' <;>
    simp [Position.after, Position.step, lastLineSnoc, newline, List.count_append]

/-- The place after a text is found step by step from any place in it. -/
theorem foldlAfter (before after : List Char) :
    after.foldl Position.step (Position.after before) = Position.after (before ++ after) := by
  induction after generalizing before with
  | nil => simp
  | cons c rest inductionHypothesis =>
      rw [List.foldl_cons, ← afterSnoc, inductionHypothesis, List.append_assoc,
        List.singleton_append]

/-- The place that is reached is the place after what was passed over. -/
theorem advanceAfter (count : Nat) (text : List Char) :
    Position.start.advance count text = Position.after (text.take count) := by
  rw [advanceTake]
  exact foldlAfter [] (text.take count)

/-- The characters from one offset up to another. -/
def slice (text : List Char) (start stop : Nat) : List Char :=
  (text.drop start).take (stop - start)

/-- An ASCII letter, a digit or an underscore. -/
def isAsciiWord (c : Char) : Bool :=
  c.isAlphanum || c == '_'

def lowerAscii (c : Char) : Char := c.toLower

/-- The letters `xml` in any case, with no ASCII letter, digit or underscore after them. -/
def beginsXml (cs : List Char) : Bool :=
  (cs.take 3).map lowerAscii == ['x', 'm', 'l'] &&
    match cs.drop 3 with
    | [] => true
    | c :: _ => !isAsciiWord c

/-- An XML declaration is template text. Its question mark is masked, so that it opens no code. -/
def mask : List Char → List Char
  | [] => []
  | '<' :: '?' :: rest => '<' :: (if beginsXml rest then '_' else '?') :: mask rest
  | c :: rest => c :: mask rest

/-- Masking keeps all places. -/
theorem maskLength (text : List Char) : (mask text).length = text.length := by
  fun_induction mask text with
  | case1 => rfl
  | case2 rest inductionHypothesis => simp [inductionHypothesis]
  | case3 c rest different inductionHypothesis => simp [inductionHypothesis]

/-- A source keeps its text as written beside the masked text that is read. -/
structure Source where
  written : List Char
  masked : List Char
  isMasked : masked = mask written

def Source.ofChars (text : List Char) : Source := ⟨text, mask text, rfl⟩

/-- The place of an offset in the text as written. -/
def Source.position (source : Source) (offset : Nat) : Position :=
  Position.start.advance offset source.written

end Untranslated.Php
