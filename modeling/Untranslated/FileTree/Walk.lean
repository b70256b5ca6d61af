/-
This file lists the files below a path.
-/

import Untranslated.FileTree.Entry

namespace Untranslated.FileTree

/-- A link to a directory is a directory that is not entered. -/
def countsAsFile (tree : Entry) (place : Place) : Text × Entry → Bool
  | (_, .directory _) => false
  | (_, .file _) => true
  | (name, .link _) =>
    match follow tree (linkLimit + 1) place [name] with
    | .ok place => !(tree.at? place).any Entry.isDirectory
    | .error _ => true

mutual

/-- The files of a directory in the order of their names, and then those of its directories. -/
def walkEntry (tree : Entry) (place : Place) (path : Path) : Entry → List Path
  | .directory entries =>
    let names := (entries.filter (countsAsFile tree place)).map (·.1)
    let below := walkEntries tree place path entries
    (Text.sort names).map path.child ++
      (below.mergeSort fun a b => Text.le a.1 b.1).flatMap (·.2)
  | _ => []

/-- The files below each directory among the entries. -/
def walkEntries (tree : Entry) (place : Place) (path : Path) :
    List (Text × Entry) → List (Text × List Path)
  | [] => []
  | (name, entry) :: rest =>
    (name, walkEntry tree (place ++ [name]) (path.child name) entry) ::
      walkEntries tree place path rest

end

/-- A file is below itself. There is nothing below a path that leads nowhere. -/
def walk (tree : Entry) (root : Path) : List Path :=
  match locate tree root with
  | .error _ => []
  | .ok place =>
    match tree.at? place with
    | some (.file _) => [root]
    | some entry => walkEntry tree place root entry
    | none => []

def defaultSuffixes : List Text := ["php"]

/-- A listing holds the paths found, the places they lead to, the roots that are missing, and the
path in a circle that ended it. -/
structure Listing where
  paths : List Path
  places : List Place
  missing : List Path
  circular : Option Path

def Listing.empty : Listing := ⟨[], [], [], none⟩

/-- Of the paths that lead to one place the first is kept. -/
def Listing.add (tree : Entry) (listing : Listing) (path : Path) : Listing :=
  if listing.circular.isSome then listing
  else
    match resolve tree path with
    | .error _ => { listing with circular := some path }
    | .ok place =>
      if listing.places.contains place then listing
      else
        { listing with paths := listing.paths ++ [path], places := listing.places ++ [place] }

def Listing.addRoot (tree : Entry) (suffixes : List Text) (listing : Listing) (root : Path) :
    Listing :=
  if listing.circular.isSome then listing
  else if isPresent tree root then
    ((walk tree root).filter (·.hasSuffix suffixes)).foldl (Listing.add tree) listing
  else { listing with missing := listing.missing ++ [root] }

/-- The files below the roots whose names have one of the suffixes. -/
def list (tree : Entry) (roots : List Path) (suffixes : List Text) : Listing :=
  roots.foldl (Listing.addRoot tree suffixes) .empty

/-- The texts of files. The first that cannot be read ends the reading. -/
def readAll (tree : Entry) (encoding : Encoding) (paths : List Path) :
    Except ReadError (List (Path × List Char)) :=
  paths.mapM fun path => return (path, ← readText tree encoding path)

end Untranslated.FileTree
