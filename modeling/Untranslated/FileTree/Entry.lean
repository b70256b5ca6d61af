/-
This file defines file trees with symbolic links, and finds the entries at paths.
-/

import Untranslated.FileTree.Path
import Untranslated.Text.Quoted
import Untranslated.Text.Utf8

namespace Untranslated.FileTree

open Utf8 (Bytes DecodeError)

/-- An entry of a tree. The names in a directory are distinct. -/
inductive Entry where
  | file (content : Bytes)
  | link (target : Text)
  | directory (entries : List (Text × Entry))

/-- A place is a path from the root of the tree in which no part is a link. -/
abbrev Place := List Text

namespace Entry

/-- A directory without members. -/
def empty : Entry := .directory []

/-- The entry of a name in a directory. -/
def member? : Entry → Text → Option Entry
  | .directory entries, name => (entries.find? (·.1 = name)).map (·.2)
  | _, _ => none

/-- The entry at a place. -/
def at? (tree : Entry) : Place → Option Entry
  | [] => some tree
  | name :: rest =>
    match tree.member? name with
    | none => none
    | some entry => entry.at? rest

def isDirectory : Entry → Bool
  | .directory _ => true
  | _ => false

def isFile : Entry → Bool
  | .file _ => true
  | _ => false

/-- An entry takes the place of the one that has its name, or it comes last. -/
def put (name : Text) (entry : Entry) : List (Text × Entry) → List (Text × Entry)
  | [] => [(name, entry)]
  | (other, old) :: rest =>
    if other = name then (name, entry) :: rest else (other, old) :: put name entry rest

def members : Entry → List (Text × Entry)
  | .directory entries => entries
  | _ => []

/-- An entry is put at a place. Directories above it are made. -/
def insert (tree : Entry) (entry : Entry) : Place → Entry
  | [] => entry
  | name :: rest =>
    .directory
      (put name (((tree.member? name).getD empty).insert entry rest) tree.members)

/-- The entry at a place is taken away, if there is one. -/
def remove (tree : Entry) : Place → Entry
  | [] => tree
  | [name] => .directory (tree.members.filter (·.1 ≠ name))
  | name :: rest =>
    match tree.member? name with
    | none => tree
    | some entry => .directory (put name (entry.remove rest) tree.members)

end Entry

/-- Why a path leads to no file. -/
inductive Obstacle where
  | missing
  | notDirectory
  | isDirectory
  | tooManyLinks
deriving DecidableEq

def Obstacle.number : Obstacle → Nat
  | .missing => 2
  | .notDirectory => 20
  | .isDirectory => 21
  | .tooManyLinks => 40

def Obstacle.reason : Obstacle → String
  | .missing => "No such file or directory"
  | .notDirectory => "Not a directory"
  | .isDirectory => "Is a directory"
  | .tooManyLinks => "Too many levels of symbolic links"

/-- At most so many links are followed on the way to one entry. -/
def linkLimit : Nat := 40

def parent : Text := ".."

/-- A part that is in no directory stands for everything outside the tree. -/
def outside : Place := ["/"]

def placeFor (here : Place) (path : Path) : Place := if path.isAbsolute then outside else here

/-- The place above. Above the root is a place outside the tree. -/
def above (here : Place) : Place :=
  if here = outside then outside
  else if here.isEmpty || here.getLast? == some parent then here ++ [parent]
  else here.dropLast

/-- The parts of a path from a place on. Every part before the last has to be a directory. -/
def followParts (tree : Entry) (followLink : Place → List Text → Except Obstacle Place)
    (here : Place) : List Text → Except Obstacle Place
  | [] => if (tree.at? here).isSome then .ok here else .error .missing
  | name :: rest =>
    match tree.at? here with
    | none => .error .missing
    | some (.directory entries) =>
      if name = parent then followParts tree followLink (above here) rest
      else
        match (Entry.directory entries).member? name with
        | some (.link target) =>
          let path := Path.ofText target
          followLink (placeFor here path) (path.parts ++ rest)
        | _ => followParts tree followLink (here ++ [name]) rest
    | some _ => .error .notDirectory

/-- The place that parts lead to, with fewer links on the way than the limit. -/
def follow (tree : Entry) : Nat → Place → List Text → Except Obstacle Place
  | 0 => fun _ _ => .error .tooManyLinks
  | links + 1 => followParts tree (follow tree links)

/-- The place that a path leads to. -/
def locate (tree : Entry) (path : Path) : Except Obstacle Place :=
  follow tree (linkLimit + 1) (placeFor [] path) path.parts

mutual

/-- The places of the links in a tree. -/
def Entry.links : Entry → List Place
  | .file _ => []
  | .link _ => [[]]
  | .directory entries => linksAmong entries

def linksAmong : List (Text × Entry) → List Place
  | [] => []
  | (name, entry) :: rest => entry.links.map (name :: ·) ++ linksAmong rest

end

/-- The place that parts stand for as they are written, whatever is there. -/
def asWritten : Place → List Text → Place
  | here, [] => here
  | here, name :: rest => asWritten (if name = parent then above here else here ++ [name]) rest

/-- The place that a path stands for when each link is replaced by the place that it leads to. What
is missing counts as it is written, and so does what follows a link that leads nowhere. -/
def canonicalParts (tree : Entry) (followLink : Place → Place → List Text → Except Place Place)
    (here : Place) : List Text → Except Place Place
  | [] => .ok here
  | name :: rest =>
    if name = parent then canonicalParts tree followLink (above here) rest
    else
      match tree.at? (here ++ [name]) with
      | some (.link target) =>
        let path := Path.ofText target
        match followLink (here ++ [name]) (placeFor here path) path.parts with
        | .ok place => canonicalParts tree followLink place rest
        | .error place => .error (asWritten place rest)
      | _ => canonicalParts tree followLink (here ++ [name]) rest

/-- A link that is met again while it is followed leads nowhere. -/
def canonicalWithin (tree : Entry) : Nat → List Place → Place → List Text → Except Place Place
  | 0, _ => fun here parts => .error (asWritten here parts)
  | depth + 1, followed =>
    canonicalParts tree fun link =>
      if followed.contains link then fun _ _ => .error link
      else canonicalWithin tree depth (link :: followed)

/-- No more links than there are in a tree are followed inside each other. -/
def canonicalFrom (tree : Entry) (here : Place) (parts : List Text) : Except Place Place :=
  canonicalWithin tree (tree.links.length + 1) [] here parts

/-- The place that a path stands for, whatever is there. -/
def canonical (tree : Entry) (path : Path) : Place :=
  match canonicalFrom tree (placeFor [] path) path.parts with
  | .ok place => place
  | .error place => place

/-- The place that a path stands for. It has none if a link on the way leads in a circle that takes
too many links to follow. -/
def resolve (tree : Entry) (path : Path) : Except Obstacle Place :=
  match canonicalFrom tree (placeFor [] path) path.parts with
  | .ok place => .ok place
  | .error place =>
    match follow tree (linkLimit + 1) [] place with
    | .error .tooManyLinks => .error .tooManyLinks
    | _ => .ok place

/-- A file takes the place that its path leads to. Directories on the way are made. -/
def writeFile (tree : Entry) (path : Path) (content : Bytes) : Entry :=
  tree.insert (.file content) (canonical tree path)

def makeDirectory (tree : Entry) (path : Path) : Entry :=
  if (tree.at? (canonical tree path)).isSome then tree
  else tree.insert .empty (canonical tree path)

/-- The place of an entry itself, though it may be a link. -/
def ownPlace (tree : Entry) (path : Path) : Place :=
  canonical tree ⟨path.root, path.parts.dropLast⟩ ++ [path.name]

def makeLink (tree : Entry) (path : Path) (target : Text) : Entry :=
  tree.insert (.link target) (ownPlace tree path)

def removeFile (tree : Entry) (path : Path) : Entry := tree.remove (ownPlace tree path)

/-- The entry that a path leads to. -/
def lookup? (tree : Entry) (path : Path) : Option Entry :=
  match locate tree path with
  | .ok place => tree.at? place
  | .error _ => none

def isPresent (tree : Entry) (path : Path) : Bool := (lookup? tree path).isSome

def isFile (tree : Entry) (path : Path) : Bool := (lookup? tree path).any Entry.isFile

def isDirectory (tree : Entry) (path : Path) : Bool := (lookup? tree path).any Entry.isDirectory

/-- A file cannot be found, or is not in its encoding. -/
inductive ReadError where
  | obstacle (cause : Obstacle) (path : Path)
  | undecodable (e : DecodeError)
deriving DecidableEq

def ReadError.message : ReadError → Text
  | .obstacle cause path =>
    Text.ofString s!"[Errno {cause.number}] {cause.reason}: " ++ Text.quoted path.text
  | .undecodable e => Text.ofString e.message

inductive Encoding where
  | utf8
  | latin1
deriving DecidableEq

/-- Every line end becomes a newline. -/
def unifyLineEnds : List Char → List Char
  | '\r' :: '\n' :: rest => '\n' :: unifyLineEnds rest
  | '\r' :: rest => '\n' :: unifyLineEnds rest
  | c :: rest => c :: unifyLineEnds rest
  | [] => []

def Encoding.decode : Encoding → Bytes → Except DecodeError (List Char)
  | .utf8, bytes => Utf8.decode bytes
  | .latin1, bytes => .ok (Utf8.decodeLatin1 bytes)

/-- The content of the file that a path leads to. -/
def readBytes (tree : Entry) (path : Path) : Except ReadError Bytes :=
  match locate tree path with
  | .error cause => .error (.obstacle cause path)
  | .ok place =>
    match tree.at? place with
    | some (.file content) => .ok content
    | some (.directory _) => .error (.obstacle .isDirectory path)
    | _ => .error (.obstacle .missing path)

/-- The text of a file. -/
def readText (tree : Entry) (encoding : Encoding) (path : Path) : Except ReadError (List Char) := do
  let bytes ← readBytes tree path
  match encoding.decode bytes with
  | .ok text => return unifyLineEnds text
  | .error e => throw (.undecodable e)

end Untranslated.FileTree
