/-
This file says which files are below a directory, and proves that a walk lists them.
-/

import Untranslated.FileTree.Walk

namespace Untranslated.FileTree

/-- The path that so many names lead to from another one. -/
def Path.descend (path : Path) (names : List Text) : Path := ⟨path.root, path.parts ++ names⟩

theorem Path.child_descend (path : Path) (name : Text) (names : List Text) :
    (path.child name).descend names = path.descend (name :: names) := by
  simp [child, descend]

/-- A link in a directory leads to a directory. -/
def LeadsToDirectory (tree : Entry) (place : Place) (name : Text) : Prop :=
  ∃ target, follow tree (linkLimit + 1) place [name] = .ok target ∧
    (tree.at? target).any Entry.isDirectory = true

/-- A file below an entry, by the names on the way to it. A link counts as a file unless it leads to
a directory, and no link is entered. -/
inductive FileBelow (tree : Entry) : Place → Entry → List Text → Prop where
  | file {place : Place} {entries : List (Text × Entry)} {name : Text} {content : Utf8.Bytes}
      (member : (name, .file content) ∈ entries) :
      FileBelow tree place (.directory entries) [name]
  | link {place : Place} {entries : List (Text × Entry)} {name target : Text}
      (member : (name, .link target) ∈ entries) (other : ¬ LeadsToDirectory tree place name) :
      FileBelow tree place (.directory entries) [name]
  | inside {place : Place} {entries : List (Text × Entry)} {name : Text} {inner : Entry}
      {names : List Text} (member : (name, inner) ∈ entries)
      (below : FileBelow tree (place ++ [name]) inner names) :
      FileBelow tree place (.directory entries) (name :: names)

section

variable {tree : Entry} {place : Place} {name : Text}

/-- A link leads to a directory if following it finds one. -/
theorem leadsToDirectory_iff : LeadsToDirectory tree place name ↔
    ∃ target, follow tree (linkLimit + 1) place [name] = .ok target ∧
      (tree.at? target).any Entry.isDirectory = true := Iff.rfl

theorem countsAsFile_file (content : Utf8.Bytes) :
    countsAsFile tree place (name, .file content) = true := rfl

theorem countsAsFile_directory (entries : List (Text × Entry)) :
    countsAsFile tree place (name, .directory entries) = false := rfl

/-- A link counts as a file unless it leads to a directory. -/
theorem countsAsFile_link (target : Text) :
    countsAsFile tree place (name, .link target) = true ↔ ¬ LeadsToDirectory tree place name := by
  rw [countsAsFile, leadsToDirectory_iff]
  cases follow tree (linkLimit + 1) place [name] with
  | error obstacle => simp
  | ok found => simp

theorem fileBelow_names {entry : Entry} {names : List Text}
    (below : FileBelow tree place entry names) : names ≠ [] := by
  cases below <;> simp

/-- A file that an entry of a directory is, or that is below it. -/
def FileAt (tree : Entry) (place : Place) (named : Text × Entry) (names : List Text) : Prop :=
  (countsAsFile tree place named = true ∧ names = [named.1]) ∨
    ∃ rest, FileBelow tree (place ++ [named.1]) named.2 rest ∧ names = named.1 :: rest

/-- The files below a directory are its own and those below its entries. -/
theorem fileBelow_directory {entries : List (Text × Entry)} {names : List Text} :
    FileBelow tree place (.directory entries) names ↔
      ∃ named ∈ entries, FileAt tree place named names := by
  constructor
  · intro below
    cases below with
    | file member => exact ⟨_, member, .inl ⟨rfl, rfl⟩⟩
    | link member other => exact ⟨_, member, .inl ⟨(countsAsFile_link _).mpr other, rfl⟩⟩
    | inside member below => exact ⟨_, member, .inr ⟨_, below, rfl⟩⟩
  · rintro ⟨⟨name, entry⟩, member, ⟨counts, rfl⟩ | ⟨rest, below, rfl⟩⟩
    · cases entry with
      | file content => exact .file member
      | link target => exact .link member ((countsAsFile_link target).mp counts)
      | directory inner => simp [countsAsFile_directory] at counts
    · exact .inside member below

end

/-- A walk lists the files that are entries of a directory itself by their names. -/
theorem mem_directFiles {tree : Entry} {place : Place} {path found : Path}
    {entries : List (Text × Entry)} :
    found ∈ (Text.sort ((entries.filter (countsAsFile tree place)).map (·.1))).map path.child ↔
      ∃ named ∈ entries, countsAsFile tree place named = true ∧ found = path.descend [named.1] := by
  simp only [List.mem_map, Text.sortMember, List.mem_filter]
  constructor
  · rintro ⟨name, ⟨named, ⟨member, counts⟩, rfl⟩, rfl⟩
    exact ⟨named, member, counts, rfl⟩
  · rintro ⟨named, member, counts, rfl⟩
    exact ⟨named.1, ⟨named, ⟨member, counts⟩, rfl⟩, rfl⟩

/-- A walk lists the files below its entry, and no other paths. -/
theorem mem_walkEntry (tree : Entry) (place : Place) (path : Path) (entry : Entry) (found : Path) :
    found ∈ walkEntry tree place path entry ↔
      ∃ names, FileBelow tree place entry names ∧ found = path.descend names := by
  induction place, path, entry using walkEntry.induct tree
    (motive_2 := fun place path entries =>
      (∃ group ∈ walkEntries tree place path entries, found ∈ group.2) ↔
        ∃ name entry names, (name, entry) ∈ entries ∧
          FileBelow tree (place ++ [name]) entry names ∧ found = path.descend (name :: names)) with
  | case1 place path entries inner =>
      simp only [walkEntry, List.mem_append, mem_directFiles, List.mem_flatMap, List.mem_mergeSort,
        inner, fileBelow_directory]
      constructor
      · rintro (⟨named, member, counts, rfl⟩ | ⟨name, entry, names, member, below, rfl⟩)
        · exact ⟨_, ⟨named, member, .inl ⟨counts, rfl⟩⟩, rfl⟩
        · exact ⟨_, ⟨_, member, .inr ⟨names, below, rfl⟩⟩, rfl⟩
      · rintro ⟨names, ⟨named, member, ⟨counts, rfl⟩ | ⟨rest, below, rfl⟩⟩, rfl⟩
        · exact .inl ⟨named, member, counts, rfl⟩
        · exact .inr ⟨named.1, named.2, rest, member, below, rfl⟩
  | case2 entry place path plain =>
      have none : ∀ names, ¬ FileBelow tree place entry names := by
        intro names below
        cases below <;> exact plain _ rfl
      have empty : walkEntry tree place path entry = [] := by
        cases entry with
        | directory entries => exact absurd rfl (plain entries)
        | file content => rfl
        | link target => rfl
      simp [empty, none]
  | case3 place path => simp [walkEntries]
  | case4 place path name entry rest first others =>
      have cons : (∃ group ∈ walkEntries tree place path ((name, entry) :: rest), found ∈ group.2) ↔
          found ∈ walkEntry tree (place ++ [name]) (path.child name) entry ∨
            ∃ group ∈ walkEntries tree place path rest, found ∈ group.2 := by
        simp only [walkEntries, List.mem_cons, or_and_right, exists_or, exists_eq_left]
      rw [cons, first, others]
      simp only [List.mem_cons]
      constructor
      · rintro (⟨names, below, rfl⟩ | ⟨other, inner, names, member, below, rfl⟩)
        · exact ⟨name, entry, names, .inl rfl, below, Path.child_descend _ _ _⟩
        · exact ⟨other, inner, names, .inr member, below, rfl⟩
      · rintro ⟨other, inner, names, same | member, below, rfl⟩
        · obtain ⟨rfl, rfl⟩ := Prod.mk.inj same
          exact .inl ⟨names, below, (Path.child_descend _ _ _).symm⟩
        · exact .inr ⟨other, inner, names, member, below, rfl⟩

/-- A file below a path, by the names on the way from there. -/
def Below (tree : Entry) (path : Path) (names : List Text) : Prop :=
  ∃ place entry, locate tree path = .ok place ∧ tree.at? place = some entry ∧
    FileBelow tree place entry names

/-- A path with files below it leads to a directory. -/
theorem isDirectory_of_below {tree : Entry} {path : Path} {names : List Text}
    (below : Below tree path names) : isDirectory tree path = true := by
  obtain ⟨place, entry, located, present, inside⟩ := below
  unfold isDirectory lookup?
  simp only [located, present]
  cases inside <;> rfl

/-- A walk through a directory lists the files below it. -/
theorem mem_walk {tree : Entry} {path found : Path} (directory : isDirectory tree path = true) :
    found ∈ walk tree path ↔ ∃ names, Below tree path names ∧ found = path.descend names := by
  unfold isDirectory lookup? at directory
  unfold walk Below
  cases located : locate tree path with
  | error obstacle => simp [located] at directory
  | ok place =>
      simp only [located] at directory ⊢
      cases present : tree.at? place with
      | none => simp [present] at directory
      | some entry =>
          cases entry with
          | file content => simp [present, Entry.isDirectory] at directory
          | link target => simp [present, Entry.isDirectory] at directory
          | directory entries => simp [present, mem_walkEntry]

/-- The last dot that stands in front of the ending is found, if it does not begin the name. -/
theorem Path.suffixOf_append {stem ending : Text} (some : stem ≠ []) (long : ending ≠ [])
    (plain : ∀ c ∈ ending, c.is '.' = false) :
    suffixOf (stem ++ CodePoint.ofChar '.' :: ending) = CodePoint.ofChar '.' :: ending := by
  have tail : ((stem ++ CodePoint.ofChar '.' :: ending).reverse.takeWhile (!·.is '.')).reverse =
      ending := by
    have own : ∀ c ∈ ending.reverse, (!c.is '.') = true := by
      intro c member
      simp [plain c (List.mem_reverse.mp member)]
    rw [List.reverse_append, List.reverse_cons, List.append_assoc,
      List.takeWhile_append_of_pos own, List.singleton_append,
      List.takeWhile_cons_of_neg (by decide), List.append_nil, List.reverse_reverse]
  have positive : 0 < stem.length := List.length_pos_iff.mpr some
  have notEmpty : ending.isEmpty = false := by simpa using long
  have short : ¬ (stem ++ CodePoint.ofChar '.' :: ending).length ≤ ending.length + 1 := by
    simp only [List.length_append, List.length_cons]
    omega
  have place : (stem ++ CodePoint.ofChar '.' :: ending).length - ending.length - 1 = stem.length := by
    simp only [List.length_append, List.length_cons]
    omega
  unfold suffixOf
  simp only [tail, notEmpty, short, place, Bool.false_or, decide_false, Bool.false_eq_true, if_false,
    List.drop_left]

/-- A suffix is the end of a name that is longer. -/
theorem Path.suffixOf_spec {name suffix : Text} (found : suffixOf name = suffix)
    (some : suffix ≠ []) : ∃ stem, stem ≠ [] ∧ name = stem ++ suffix := by
  unfold suffixOf at found
  simp only at found
  split at found
  · exact absurd found.symm some
  · rename_i long
    simp only [Bool.or_eq_true, decide_eq_true_eq, not_or, Nat.not_le] at long
    subst found
    refine ⟨_, ?_, (List.take_append_drop _ name).symm⟩
    have bounded : ((name.reverse.takeWhile (!·.is '.')).reverse).length + 1 < name.length := long.2
    rw [← List.length_pos_iff, List.length_take]
    omega

/-- Without its suffix a name is its stem. -/
theorem Path.withoutSuffix_append {stem suffix : Text} (own : suffixOf (stem ++ suffix) = suffix) :
    withoutSuffix (stem ++ suffix) = stem := by
  rw [withoutSuffix, own, List.length_append, Nat.add_sub_cancel, List.take_left]

end Untranslated.FileTree
