/-
This file lowers templates to PHP files.
The lowered text need not run, but the calls in it stand where they stood.
-/

import Untranslated.Blade.Segment

namespace Untranslated.Blade

/-- A tag with its bound expressions as code. The pieces between them are lowered on their own. -/
def Tag.lowered (lowerPiece : List Char → List Char) (tag : Tag) : List Char :=
  lowerPiece tag.start ++ tag.bound.flatMap fun (binding, piece) =>
    code ("echo (".toList ++ binding.expression ++ ");".toList) ++ lowerPiece piece

def echoCode (expression : List Char) : List Char :=
  code ("echo e(".toList ++ expression ++ ");".toList)

def rawCode (expression : List Char) : List Char :=
  code ("echo ".toList ++ expression ++ [';'])

/-- The text of a segment in the lowered file. -/
def Segment.lowered (lowerPiece : List Char → List Char) : Segment → List Char
  | .plain c => [c]
  | .comment body => List.replicate (body.count '\n') '\n'
  | .escaped shown => shown
  | .raw expression => rawCode expression
  | .echo expression => echoCode expression
  | .component name tag => "<x-".toList ++ name ++ (Tag.ofChars tag).lowered lowerPiece
  | .doubledSign => ['@']
  | .unknown name => '@' :: name
  | .bare _ => []
  | .call name arguments => arguments.gap ++ directiveCode name arguments.inside
  | .codeBlock body _ => "<?php".toList ++ body ++ "?>".toList
  | .verbatim body _ => body

/-- The tags of components may hold tags themselves, down to a depth. -/
def lowerToDepth (extra : List Text) : Nat → List Char → List Char
  | 0, cs => cs
  | depth + 1, cs => (segments extra cs).flatMap (Segment.lowered (lowerToDepth extra depth))

/-- Every nested tag is shorter than the one around it. -/
def lower (extra : List Text) (template : List Char) : List Char :=
  lowerToDepth extra (template.length + 1) template

end Untranslated.Blade
