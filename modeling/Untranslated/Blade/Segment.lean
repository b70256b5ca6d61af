/-
This file divides templates into segments.
-/

import Untranslated.Blade.Component

namespace Untranslated.Blade

open Text (isWordChar)

/-- The segments of a template. A block has its end unless the template stops in it. -/
inductive Segment where
  | plain (c : Char)
  | comment (body : List Char)
  | escaped (shown : List Char)
  | raw (expression : List Char)
  | echo (expression : List Char)
  | component (name tag : List Char)
  | doubledSign
  | unknown (name : List Char)
  | bare (name : List Char)
  | call (name : List Char) (arguments : Arguments)
  | codeBlock (body ending : List Char)
  | verbatim (body ending : List Char)
deriving DecidableEq

/-- The text that a segment is written as. -/
def Segment.written : Segment → List Char
  | .plain c => [c]
  | .comment body => "\x7b\x7b--".toList ++ body ++ "--\x7d\x7d".toList
  | .escaped shown => '@' :: shown
  | .raw expression => "\x7b!!".toList ++ expression ++ "!!\x7d".toList
  | .echo expression => "\x7b\x7b".toList ++ expression ++ "\x7d\x7d".toList
  | .component name tag => "<x-".toList ++ name ++ tag
  | .doubledSign => ['@', '@']
  | .unknown name => '@' :: name
  | .bare name => '@' :: name
  | .call name arguments => '@' :: name ++ arguments.gap ++ '(' :: arguments.inside ++ [')']
  | .codeBlock body ending => "@php".toList ++ body ++ ending
  | .verbatim body ending => "@verbatim".toList ++ body ++ ending

/-- What follows a beginning, if the text has it. -/
def after? (start cs : List Char) : Option (List Char) :=
  if start.isPrefixOf cs then some (cs.drop start.length) else none

/-- The text up to the first occurrence of an ending. -/
def before? (ending : List Char) : List Char → Option (List Char)
  | [] => if ending.isEmpty then some [] else none
  | c :: rest =>
    if ending.isPrefixOf (c :: rest) then some []
    else (before? ending rest).map (c :: ·)

def between? (opening closing : String) (cs : List Char) : Option (List Char) :=
  (after? opening.toList cs).bind (before? closing.toList)

def comment? (cs : List Char) : Option Segment :=
  (between? "\x7b\x7b--" "--\x7d\x7d" cs).map .comment

def raw? (cs : List Char) : Option Segment := (between? "\x7b!!" "!!\x7d" cs).map .raw

def echo? (cs : List Char) : Option Segment := (between? "\x7b\x7b" "\x7d\x7d" cs).map .echo

/-- An echo after a sign is no echo, but stays as it is written. -/
def escaped? (cs : List Char) : Option Segment := do
  let rest ← after? ['@'] cs
  let echo ← echo? rest <|> raw? rest
  return .escaped echo.written

def component? (cs : List Char) : Option Segment := do
  let rest ← after? "<x-".toList cs
  let name := rest.takeWhile isAttributeCharacter
  let later := rest.drop name.length
  if name.isEmpty then none else some (.component name (later.take (tagLength none later)))

def doubledSign? (cs : List Char) : Option Segment :=
  if "@@".toList.isPrefixOf cs then some .doubledSign else none

/-- A body and its ending. Without the ending the body reaches to the end of the template. -/
def blockBody (ending : String) (cs : List Char) : List Char × List Char :=
  match before? ending.toList cs with
  | some body => (body, ending.toList)
  | none => (cs, [])

/-- A known directive with what follows its name. -/
def knownDirective (name rest : List Char) : Segment :=
  if name == "verbatim".toList then
    let (body, ending) := blockBody "@endverbatim" rest
    .verbatim body ending
  else
    match arguments? rest with
    | some arguments => .call name arguments
    | none =>
      if name == "php".toList then
        let (body, ending) := blockBody "@endphp" rest
        .codeBlock body ending
      else .bare name

/-- A sign inside a word or after another sign begins no directive. -/
def directive? (extra : List Text) (previous : Option Char) (cs : List Char) : Option Segment := do
  let rest ← after? ['@'] cs
  let name := rest.takeWhile isWordChar
  if name.isEmpty || previous.any fun c => isWordChar c || c == '@' then none
  else if isKnown extra name then some (knownDirective name (rest.drop name.length))
  else some (.unknown name)

/-- The segment at the front of a text. -/
def segmentAt (extra : List Text) (previous : Option Char) (c : Char) (rest : List Char) :
    Segment :=
  let cs := c :: rest
  (comment? cs <|> escaped? cs <|> raw? cs <|> echo? cs <|> component? cs <|> doubledSign? cs <|>
    directive? extra previous cs).getD (.plain c)

/-- The segments after so many characters, which belong to a segment already. -/
def segmentsAfter (extra : List Text) : Nat → Option Char → List Char → List Segment
  | _, _, [] => []
  | skipped + 1, _, c :: rest => segmentsAfter extra skipped (some c) rest
  | 0, previous, c :: rest =>
    let segment := segmentAt extra previous c rest
    segment :: segmentsAfter extra (segment.written.length - 1) (some c) rest

/-- The segments of a template in order. -/
def segments (extra : List Text) (template : List Char) : List Segment :=
  segmentsAfter extra 0 none template

end Untranslated.Blade
