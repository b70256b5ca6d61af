/-
This file defines paths and their text.
-/

import Untranslated.Text.CodePoint

namespace Untranslated.FileTree

/-- A path has a root, which is empty for a relative path, and parts. No part is empty or a single
dot. -/
structure Path where
  root : Text
  parts : List Text
deriving DecidableEq

namespace Path

def isPart (part : Text) : Bool := !part.isEmpty && part != Text.ofString "."

/-- Two slashes in front are kept, and three or more count as one. -/
def rootOf (t : Text) : Text :=
  match (t.takeWhile (·.is '/')).length with
  | 0 => []
  | 2 => "//"
  | _ => "/"

def ofText (t : Text) : Path :=
  ⟨rootOf t, (Text.splitAtChar '/' t).filter isPart⟩

def isAbsolute (path : Path) : Bool := !path.root.isEmpty

/-- A relative path without parts is written as a dot. -/
def text (path : Path) : Text :=
  if path.root.isEmpty && path.parts.isEmpty then "." else path.root ++ Text.join "/" path.parts

/-- An absolute path replaces the one before it. -/
def append (base other : Path) : Path :=
  if other.isAbsolute then other else ⟨base.root, base.parts ++ other.parts⟩

def child (base : Path) (name : Text) : Path := ⟨base.root, base.parts ++ [name]⟩

/-- The last part. -/
def name (path : Path) : Text := path.parts.getLast?.getD []

/-- The last dot of a name and what follows it. A dot at either end begins no suffix. -/
def suffixOf (name : Text) : Text :=
  let tail := (name.reverse.takeWhile (!·.is '.')).reverse
  if tail.isEmpty || name.length ≤ tail.length + 1 then []
  else name.drop (name.length - tail.length - 1)

def withoutSuffix (name : Text) : Text := name.take (name.length - (suffixOf name).length)

def hasSuffix (path : Path) (suffixes : List Text) : Bool :=
  suffixes.any (Text.endsWith · path.name)

end Path

end Untranslated.FileTree
