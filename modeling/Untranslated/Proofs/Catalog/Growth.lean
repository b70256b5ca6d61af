/-
This file proves that the keys of a locale are the union of its language files.
The order in which directories list their entries does not change them, and one more file adds its
own keys alone.
-/

import Untranslated.Proofs.Catalog.Union

namespace Untranslated.Catalog

open FileTree (Added Below Entry Path Place Reordered)
open Utf8 (Bytes)

variable {directory : Path} {locale : Text}

/-- The path of a text of code stands in its messages alone. -/
theorem codeKeys_path {text : List Char} {path : Option Text} {keys : List Text}
    {records : List Record} (valid : codeKeys text path = .ok (keys, records))
    (other : Option Text) : ∃ others, codeKeys text other = .ok (keys, others) := by
  unfold codeKeys Php.parse at valid ⊢
  simp only at valid ⊢
  cases read : Php.read (Php.tokens (Php.Source.ofChars text).masked) with
  | error e => simp [read] at valid
  | ok tree =>
      rw [read] at valid
      simp only at valid ⊢
      generalize Php.Program.returnedKeys _ = returned at valid ⊢
      cases returned with
      | error e => simp at valid
      | ok found =>
          cases found with
          | none => exact ⟨_, by rw [← (Prod.mk.inj (Except.ok.inj valid)).1]⟩
          | some own => exact ⟨_, by rw [← (Prod.mk.inj (Except.ok.inj valid)).1]⟩

/-- A file defines its keys in one way. -/
theorem LanguageFile.Defines.unique {tree : Entry} {file : LanguageFile} {own other : List Text}
    (first : file.Defines tree own) (second : file.Defines tree other) : own = other := by
  cases first with
  | names read valid =>
      cases second with
      | names readOther validOther =>
          obtain rfl := Except.ok.inj (read.symm.trans readOther)
          obtain rfl := Json.Value.object.inj (Except.ok.inj (valid.symm.trans validOther))
          rfl
  | group read valid =>
      cases second with
      | group readOther validOther =>
          obtain rfl := Except.ok.inj (read.symm.trans readOther)
          obtain ⟨rfl, -⟩ := Prod.mk.inj (Except.ok.inj (valid.symm.trans validOther))
          rfl

/-- A file defines its keys in every tree that holds its text. -/
theorem LanguageFile.Defines.mono {tree other : Entry} {file : LanguageFile} {own : List Text}
    (defines : file.Defines tree own)
    (same : ∀ path text, FileTree.readText tree .utf8 path = .ok text →
      FileTree.readText other .utf8 path = .ok text) : file.Defines other own := by
  cases defines with
  | names read valid => exact .names (same _ _ read) valid
  | group read valid => exact .group (same _ _ read) valid

/-- What defines keys is a file. -/
theorem LanguageFile.Defines.isFile {tree : Entry} {file : LanguageFile} {own : List Text}
    (defines : file.Defines tree own) : FileTree.isFile tree file.path = true := by
  cases defines with
  | names read valid => exact FileTree.isFile_of_readText read
  | group read valid => exact FileTree.isFile_of_readText read

section

variable {tree other : Entry} {file : LanguageFile}

/-- A locale is known whatever the order of the entries is. -/
theorem isKnown_reordered (same : Reordered tree other) :
    IsKnown tree directory locale ↔ IsKnown other directory locale := by
  unfold IsKnown
  rw [same.isFile, same.isDirectory]

/-- The files of a locale do not depend on the order of the entries. -/
theorem belongs_reordered (same : Reordered tree other) :
    LanguageFile.Belongs tree directory locale file ↔
      LanguageFile.Belongs other directory locale file := by
  have half {tree other : Entry} (same : Reordered tree other)
      (belongs : LanguageFile.Belongs tree directory locale file) :
      LanguageFile.Belongs other directory locale file := by
    cases belongs with
    | names present => exact .names (same.isFile _ ▸ present)
    | own below =>
        obtain ⟨above, stem, some, below, rfl⟩ := below
        exact .own ⟨above, stem, some, same.below_iff.mp below, rfl⟩
    | package below =>
        obtain ⟨package, listed, is, inside, above, stem, some, below, rfl⟩ := below
        exact .package ⟨package, same.lists_iff.mp listed, same.isDirectory _ ▸ is,
          same.isDirectory _ ▸ inside, above, stem, some, same.below_iff.mp below, rfl⟩
  exact ⟨half same, half same.symm⟩

/-- A file defines its keys whatever the order of the entries is. -/
theorem defines_reordered (same : Reordered tree other) {own : List Text} :
    file.Defines tree own ↔ file.Defines other own :=
  ⟨fun defines => defines.mono fun _ _ => same.readText_ok,
    fun defines => defines.mono fun _ _ => same.symm.readText_ok⟩

end

section

variable {tree grown : Entry} {content : Bytes} {place : Place} {file : LanguageFile}

/-- A new file makes no locale unknown. -/
theorem isKnown_added (added : Added content place tree grown)
    (known : IsKnown tree directory locale) : IsKnown grown directory locale :=
  known.imp (fun present => added.isFile_iff.mpr (.inl present))
    fun present => added.isDirectory _ ▸ present

/-- The groups below a directory are those of before, and those of the new file. -/
theorem groupBelow_added (added : Added content place tree grown)
    (ordinary : ∀ name ∈ place, name ≠ FileTree.parent) {start : Text} :
    GroupBelow grown start directory file ↔ GroupBelow tree start directory file ∨
      GroupBelow grown start directory file ∧ FileTree.locate grown file.path = .ok place := by
  constructor
  · rintro ⟨above, stem, some, below, rfl⟩
    rcases added.below_iff.mp below with old | ⟨here, found, rfl, -⟩
    · exact .inl ⟨above, stem, some, old, rfl⟩
    · refine .inr ⟨⟨above, stem, some, below, rfl⟩, ?_⟩
      exact FileTree.locate_descend found added.shapeAt_new.2 fun name member =>
        ordinary name (List.mem_append_right _ member)
  · rintro (⟨above, stem, some, below, rfl⟩ | ⟨below, -⟩)
    · exact ⟨above, stem, some, added.below_iff.mpr (.inl below), rfl⟩
    · exact below

/-- No new package comes with a file. -/
theorem lists_added (added : Added content place tree grown)
    (ordinary : ∀ name ∈ place, name ≠ FileTree.parent) {name : Text}
    (is : FileTree.isDirectory grown (directory.child name) = true) :
    FileTree.Lists grown directory name ↔ FileTree.Lists tree directory name := by
  rw [added.lists_iff, or_iff_left]
  rintro ⟨here, found, rfl⟩
  have located : FileTree.locate grown (directory.child name) = .ok (here ++ [name]) :=
    FileTree.locate_descend found added.shapeAt_new.2 fun part member =>
      ordinary part (List.mem_append_right _ member)
  obtain ⟨other, foundOther, shape⟩ := FileTree.isDirectory_iff.mp is
  obtain rfl := Except.ok.inj (located.symm.trans foundOther)
  simp [added.shapeAt_new.2] at shape

/-- Of the files of packages only the new one is added. -/
theorem packageGroup_added (added : Added content place tree grown)
    (ordinary : ∀ name ∈ place, name ≠ FileTree.parent) :
    PackageGroup grown directory locale file ↔ PackageGroup tree directory locale file ∨
      PackageGroup grown directory locale file ∧
        FileTree.locate grown file.path = .ok place := by
  constructor
  · rintro ⟨package, listed, is, inside, below⟩
    rcases (groupBelow_added added ordinary).mp below with old | ⟨-, new⟩
    · exact .inl ⟨package, (lists_added added ordinary is).mp listed, added.isDirectory _ ▸ is,
        added.isDirectory _ ▸ inside, old⟩
    · exact .inr ⟨⟨package, listed, is, inside, below⟩, new⟩
  · rintro (⟨package, listed, is, inside, below⟩ | ⟨below, -⟩)
    · rw [added.isDirectory] at is inside
      exact ⟨package, (lists_added added ordinary is).mpr listed, is, inside,
        (groupBelow_added added ordinary).mpr (.inl below)⟩
    · exact below

/-- The files of a locale are those of before, and the new file under each of its groups. -/
theorem belongs_added (added : Added content place tree grown)
    (ordinary : ∀ name ∈ place, name ≠ FileTree.parent)
    (notNames : FileTree.locate grown (namesPath directory locale) ≠ .ok place) :
    LanguageFile.Belongs grown directory locale file ↔
      LanguageFile.Belongs tree directory locale file ∨
        ∃ group path, file = .group group path ∧ LanguageFile.Belongs grown directory locale file ∧
          FileTree.locate grown path = .ok place := by
  constructor
  · intro belongs
    cases belongs with
    | names present =>
        rcases added.isFile_iff.mp present with old | new
        · exact .inl (.names old)
        · exact absurd new notNames
    | own below =>
        rcases (groupBelow_added added ordinary).mp below with old | ⟨again, new⟩
        · exact .inl (.own old)
        · obtain ⟨above, stem, -, -, rfl⟩ := again
          exact .inr ⟨_, _, rfl, .own below, new⟩
    | package below =>
        rcases (packageGroup_added added ordinary).mp below with old | ⟨again, new⟩
        · exact .inl (.package old)
        · obtain ⟨package, -, -, -, above, stem, -, -, rfl⟩ := again
          exact .inr ⟨_, _, rfl, .package below, new⟩
  · rintro (belongs | ⟨group, path, -, belongs, -⟩)
    · cases belongs with
      | names present => exact .names (added.isFile_iff.mpr (.inl present))
      | own below => exact .own ((groupBelow_added added ordinary).mpr (.inl below))
      | package below => exact .package ((packageGroup_added added ordinary).mpr (.inl below))
    · exact belongs

/-- The new file defines its keys under each of its groups. -/
theorem defines_new (added : Added content place tree grown) {chars : List Char} {own : List Text}
    {path : Path} {source : Option Text} {records : List Record}
    (located : FileTree.locate grown path = .ok place)
    (decoded : Utf8.decode content = .ok chars)
    (valid : codeKeys (FileTree.unifyLineEnds chars) source = .ok (own, records)) (group : Text) :
    (LanguageFile.group group path).Defines grown (group :: own.map (group ++ "." ++ ·)) := by
  obtain ⟨others, valid⟩ := codeKeys_path valid (some path.text)
  have read : FileTree.readText grown .utf8 path = .ok (FileTree.unifyLineEnds chars) :=
    added.readText_new located decoded
  exact .group read valid

end

/-- The content of a file is valid code, and it defines these keys. -/
def IsCode (content : Bytes) (own : List Text) : Prop :=
  ∃ chars source records, Utf8.decode content = .ok chars ∧
    codeKeys (FileTree.unifyLineEnds chars) source = .ok (own, records)

/-- The keys of a locale are the union of its files, or there are none. -/
structure IsUnion (directory : Path) (locale : Text)
    (keysOf : Entry → Except LoadError (List Text)) : Prop where
  /-- A locale without a file of names and a directory is an error. -/
  unknown : ∀ tree, ¬ IsKnown tree directory locale →
    keysOf tree = .error (.emptyLocale locale (namesPath directory locale).name directory)
  /-- A single file that is unreadable or invalid fails the whole load. -/
  whole : ∀ tree, (∃ keys, keysOf tree = .ok keys) ↔ IsKnown tree directory locale ∧
    ∀ file, LanguageFile.Belongs tree directory locale file → ∃ own, file.Defines tree own
  union : ∀ tree keys, keysOf tree = .ok keys → keys.Nodup ∧ ∀ key, key ∈ keys ↔
    ∃ file own, LanguageFile.Belongs tree directory locale file ∧ file.Defines tree own ∧ key ∈ own
  regular : ∀ tree keys, keysOf tree = .ok keys →
    ∀ file, LanguageFile.Belongs tree directory locale file →
      FileTree.isFile tree file.path = true
  reordered : ∀ tree other, Reordered tree other →
    ((∃ keys, keysOf tree = .ok keys) ↔ ∃ keys, keysOf other = .ok keys) ∧
      ∀ keys others, keysOf tree = .ok keys → keysOf other = .ok others →
        ∀ key, key ∈ keys ↔ key ∈ others
  /-- The new file is no file of names. It gives its keys to every group that leads to it. -/
  added : ∀ tree grown content place own keys, Added content place tree grown →
    (∀ name ∈ place, name ≠ FileTree.parent) →
    FileTree.locate grown (namesPath directory locale) ≠ .ok place →
    IsCode content own → keysOf tree = .ok keys →
    ∃ more, keysOf grown = .ok more ∧ ∀ key, key ∈ more ↔ key ∈ keys ∨
      ∃ group path, LanguageFile.Belongs grown directory locale (.group group path) ∧
        FileTree.locate grown path = .ok place ∧
        (key = group ∨ ∃ inner ∈ own, key = group ++ "." ++ inner)

section

variable {tree : Entry} {keys : List Text}

/-- A key of a locale is defined by one of its files, and all that they define are keys. -/
theorem freshKeys_union (success : freshKeys directory locale tree = .ok keys) (key : Text) :
    key ∈ keys ↔ ∃ file own, LanguageFile.Belongs tree directory locale file ∧
      file.Defines tree own ∧ key ∈ own :=
  (freshKeys_collects (freshKeys_success.mp ⟨keys, success⟩).1).union keys success key

/-- The order of the entries changes neither the keys nor whether they can be loaded. -/
theorem freshKeys_reordered {other : Entry} (same : Reordered tree other) :
    ((∃ keys, freshKeys directory locale tree = .ok keys) ↔
        ∃ keys, freshKeys directory locale other = .ok keys) ∧
      ∀ keys others, freshKeys directory locale tree = .ok keys →
        freshKeys directory locale other = .ok others → ∀ key, key ∈ keys ↔ key ∈ others := by
  constructor
  · simp only [freshKeys_success, isKnown_reordered same, belongs_reordered same,
      defines_reordered same]
  · intro keys others success successOther key
    simp only [freshKeys_union success, freshKeys_union successOther, belongs_reordered same,
      defines_reordered same]

/-- A new file with valid code adds its own keys, and nothing else changes. -/
theorem freshKeys_added {grown : Entry} {content : Bytes} {place : Place} {own : List Text}
    (added : Added content place tree grown) (ordinary : ∀ name ∈ place, name ≠ FileTree.parent)
    (notNames : FileTree.locate grown (namesPath directory locale) ≠ .ok place)
    (valid : IsCode content own) (success : freshKeys directory locale tree = .ok keys) :
    ∃ more, freshKeys directory locale grown = .ok more ∧ ∀ key, key ∈ more ↔ key ∈ keys ∨
      ∃ group path, LanguageFile.Belongs grown directory locale (.group group path) ∧
        FileTree.locate grown path = .ok place ∧
        (key = group ∨ ∃ inner ∈ own, key = group ++ "." ++ inner) := by
  obtain ⟨chars, source, records, decoded, valid⟩ := valid
  obtain ⟨known, defined⟩ := freshKeys_success.mp ⟨keys, success⟩
  have kept {file : LanguageFile} {names : List Text} (defines : file.Defines tree names) :
      file.Defines grown names := defines.mono fun _ _ => added.readText_ok
  have new {path : Path} (located : FileTree.locate grown path = .ok place) (group : Text) :=
    defines_new added located decoded valid group
  obtain ⟨more, successMore⟩ : ∃ more, freshKeys directory locale grown = .ok more := by
    refine freshKeys_success.mpr ⟨isKnown_added added known, fun file belongs => ?_⟩
    rcases (belongs_added added ordinary notNames).mp belongs with old | ⟨group, path, rfl, -, located⟩
    · obtain ⟨names, defines⟩ := defined file old
      exact ⟨names, kept defines⟩
    · exact ⟨_, new located group⟩
  refine ⟨more, successMore, fun key => ?_⟩
  rw [freshKeys_union success, freshKeys_union successMore]
  constructor
  · rintro ⟨file, names, belongs, defines, member⟩
    rcases (belongs_added added ordinary notNames).mp belongs with old |
        ⟨group, path, rfl, again, located⟩
    · obtain ⟨others, definesOld⟩ := defined file old
      obtain rfl := defines.unique (kept definesOld)
      exact .inl ⟨file, names, old, definesOld, member⟩
    · obtain rfl := defines.unique (new located group)
      refine .inr ⟨group, path, again, located, ?_⟩
      simpa only [List.mem_cons, List.mem_map, eq_comm] using member
  · rintro (⟨file, names, belongs, defines, member⟩ | ⟨group, path, belongs, located, member⟩)
    · exact ⟨file, names, (belongs_added added ordinary notNames).mpr (.inl belongs), kept defines,
        member⟩
    · refine ⟨_, _, belongs, new located group, ?_⟩
      simpa only [List.mem_cons, List.mem_map, eq_comm] using member

end

/-- A locale has exactly the keys that its files define, or its load fails as a whole. -/
theorem keys_union (directory : Path) (locale : Text) :
    IsUnion directory locale (freshKeys directory locale) where
  unknown _ unknown := freshKeys_unknown unknown
  whole _ := freshKeys_success
  union _ _ success := ⟨freshKeys_nodup success, freshKeys_union success⟩
  regular _ keys success file belongs := by
    obtain ⟨own, defines⟩ := (freshKeys_success.mp ⟨keys, success⟩).2 file belongs
    exact defines.isFile
  reordered _ _ same := freshKeys_reordered same
  added _ _ _ _ _ _ added ordinary notNames valid success :=
    freshKeys_added added ordinary notNames valid success

/-- A language file with one key. -/
def flatCode : Bytes := Utf8.encode "<?php return ['k' => 1];".toList

/-- A language file with a key inside another. -/
def nestedCode : Bytes := Utf8.encode "<?php return ['m' => ['n' => 1]];".toList

/-- A locale with one file. -/
def oneGroup : Entry := .directory [("fr", .directory [("a.php", .file flatCode)])]

/-- The same locale with a second file. -/
def twoGroups : Entry :=
  .directory [("fr", .directory [("a.php", .file flatCode), ("b.php", .file nestedCode)])]

/-- The nested keys are joined by a dot. -/
theorem isCode_nestedCode : IsCode nestedCode ["m", "m.n"] := by
  have valid : ((Utf8.decode nestedCode).toOption.bind fun chars =>
      (codeKeys (FileTree.unifyLineEnds chars) none).toOption.map (·.1)) =
        some [Text.ofString "m", "m.n"] := by decide +kernel
  cases decoded : Utf8.decode nestedCode with
  | error e => simp [decoded, Except.toOption] at valid
  | ok chars =>
      cases told : codeKeys (FileTree.unifyLineEnds chars) none with
      | error e => simp [decoded, told, Except.toOption] at valid
      | ok found =>
          obtain ⟨own, records⟩ := found
          simp only [decoded, told, Except.toOption, Option.bind_some, Option.map_some,
            Option.some.injEq] at valid
          exact ⟨chars, none, records, decoded, valid ▸ told⟩

/-- The second file belongs to the locale. -/
theorem belongs_twoGroups :
    LanguageFile.Belongs twoGroups ⟨[], []⟩ "fr" (.group "b" ⟨[], ["fr", "b.php"]⟩) :=
  .own ⟨[], "b", by decide, ⟨["fr"], _, by rfl, rfl, .file (.tail _ (.head _))⟩, by rfl⟩

/-- With the second file its keys are added. -/
theorem keys_union_twoGroups : ∃ keys more,
    freshKeys ⟨[], []⟩ "fr" oneGroup = .ok keys ∧ freshKeys ⟨[], []⟩ "fr" twoGroups = .ok more ∧
      (∀ key ∈ keys, key ∈ more) ∧ Text.ofString "b.m.n" ∈ more := by
  have before : (freshKeys ⟨[], []⟩ "fr" oneGroup).isOk = true := by decide +kernel
  have grown : Added nestedCode [Text.ofString "fr", "b.php"] oneGroup twoGroups :=
    .inside [] [] (by simp) (.here [("a.php", .file flatCode)] [] (by decide))
  have noNames : FileTree.locate twoGroups (namesPath ⟨[], []⟩ "fr") = .error .missing := by rfl
  cases success : freshKeys ⟨[], []⟩ "fr" oneGroup with
  | error e => simp [success, Except.isOk, Except.toBool] at before
  | ok keys =>
      obtain ⟨more, successMore, added⟩ := (keys_union ⟨[], []⟩ "fr").added oneGroup twoGroups _ _ _
        keys grown (by decide) (by simp [noNames]) isCode_nestedCode success
      refine ⟨keys, more, rfl, successMore, fun key member => (added key).mpr (.inl member), ?_⟩
      exact (added _).mpr
        (.inr ⟨_, _, belongs_twoGroups, by rfl, .inr ⟨Text.ofString "m.n", by decide, by decide⟩⟩)

end Untranslated.Catalog
