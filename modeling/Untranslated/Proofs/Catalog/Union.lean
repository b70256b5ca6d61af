/-
This file proves that a locale has exactly the keys that its files define, or that its load fails.
Neither the order of directories nor another file in them changes the keys of a file.
-/

import Untranslated.Proofs.Catalog.Loading
import Untranslated.Proofs.FileTree.Change

namespace Untranslated.Catalog

open FileTree (Added Below Entry Path Place Reordered)

/-- The file of names of a locale. -/
def namesPath (directory : Path) (locale : Text) : Path :=
  directory.append (Path.ofText (locale ++ ".json"))

/-- The directory of a locale. -/
def localePath (directory : Path) (locale : Text) : Path := directory.append (Path.ofText locale)

/-- The directory of all packages. -/
def packagesPath (directory : Path) : Path := directory.child "vendor"

/-- The directory of a package for a locale. -/
def packagePath (directory : Path) (package locale : Text) : Path :=
  ((packagesPath directory).child package).append (Path.ofText locale)

/-- A locale is known if it has a file of names or a directory. -/
def IsKnown (tree : Entry) (directory : Path) (locale : Text) : Prop :=
  FileTree.isFile tree (namesPath directory locale) = true ∨
    FileTree.isDirectory tree (localePath directory locale) = true

/-- The files of code below a directory. A group is named by the way to its file. -/
def GroupBelow (tree : Entry) (start : Text) (directory : Path) (file : LanguageFile) : Prop :=
  ∃ above stem, stem ≠ [] ∧ Below tree directory (above ++ [stem ++ codeSuffix]) ∧
    file = .group (start ++ Text.join "/" (above ++ [stem]))
      (directory.descend (above ++ [stem ++ codeSuffix]))

/-- The files of code that a package has for a locale. The package puts its name in front. -/
def PackageGroup (tree : Entry) (directory : Path) (locale : Text) (file : LanguageFile) : Prop :=
  ∃ package, FileTree.Lists tree (packagesPath directory) package ∧
    FileTree.isDirectory tree ((packagesPath directory).child package) = true ∧
    FileTree.isDirectory tree (packagePath directory package locale) = true ∧
    GroupBelow tree (package ++ "::") (packagePath directory package locale) file

/-- The file of names and the groups of a locale, and those of the packages. -/
inductive LanguageFile.Belongs (tree : Entry) (directory : Path) (locale : Text) :
    LanguageFile → Prop where
  | names (present : FileTree.isFile tree (namesPath directory locale) = true) :
      Belongs tree directory locale (.names (namesPath directory locale))
  | own {file : LanguageFile} (below : GroupBelow tree [] (localePath directory locale) file) :
      Belongs tree directory locale file
  | package {file : LanguageFile} (below : PackageGroup tree directory locale file) :
      Belongs tree directory locale file

section

variable {tree : Entry} {directory : Path}

/-- A group is named by the way to its file, without the suffix. -/
theorem groupName_descend (directory : Path) (above : List Text) {stem : Text} (some : stem ≠ []) :
    groupName directory (directory.descend (above ++ [stem ++ codeSuffix])) =
      Text.join "/" (above ++ [stem]) := by
  have parts : (directory.descend (above ++ [stem ++ codeSuffix])).parts.drop
      directory.parts.length = above ++ [stem ++ codeSuffix] := List.drop_left
  have own : Path.suffixOf (stem ++ codeSuffix) = codeSuffix :=
    Path.suffixOf_append some (by decide) (by decide)
  simp only [groupName, parts, List.dropLast_concat, List.getLast?_concat, Option.getD_some,
    Path.withoutSuffix_append own]

theorem descend_name (directory : Path) (above : List Text) (name : Text) :
    (directory.descend (above ++ [name])).name = name := by
  simp [Path.name, Path.descend]

/-- The files of code that a walk finds are the groups below the directory. -/
theorem walk_groupBelow (start : Text) (is : FileTree.isDirectory tree directory = true)
    (file : LanguageFile) :
    (∃ path ∈ (FileTree.walk tree directory).filter (Path.suffixOf ·.name == codeSuffix),
      file = .group (start ++ groupName directory path) path) ↔
        GroupBelow tree start directory file := by
  simp only [List.mem_filter, FileTree.mem_walk is, beq_iff_eq]
  constructor
  · rintro ⟨path, ⟨⟨names, below, rfl⟩, suffix⟩, rfl⟩
    obtain ⟨place, entry, found, present, inside⟩ := below
    obtain ⟨above, name, rfl⟩ : ∃ above name, names = above ++ [name] :=
      ⟨_, _, (List.dropLast_concat_getLast (FileTree.fileBelow_names inside)).symm⟩
    rw [descend_name] at suffix
    obtain ⟨stem, some, rfl⟩ := Path.suffixOf_spec suffix (by decide)
    exact ⟨above, stem, some, ⟨place, entry, found, present, inside⟩, by
      rw [groupName_descend directory above some]⟩
  · rintro ⟨above, stem, some, below, rfl⟩
    refine ⟨_, ⟨⟨_, below, rfl⟩, ?_⟩, by rw [groupName_descend directory above some]⟩
    rw [descend_name]
    exact Path.suffixOf_append some (by decide) (by decide)

/-- The keys of the groups below a directory without what is reported. -/
def directoryResult (tree : Entry) (start : Text) (directory : Path) :
    Except LoadError (List Text) := do
  let files := (FileTree.walk tree directory).filter (Path.suffixOf ·.name == codeSuffix)
  return (← files.mapM fun file =>
    groupResult tree (start ++ groupName directory file) file).flatten

/-- What the groups of a package have in front of their names. -/
def packageStart (package : Option Text) : Text :=
  match package with
  | some name => name ++ "::"
  | none => []

/-- The load of a directory gives its keys, whatever it reports. -/
theorem directoryKeys_gives (tree : Entry) (package : Option Text) (directory : Path) :
    (directoryKeys tree package directory).Gives
      (directoryResult tree (packageStart package) directory) :=
  Load.gives_bind (Load.gives_mapM (fun file => groupKeys_gives tree _ file) _)
    fun _ => Load.gives_pure _

/-- The load of a directory collects the groups below it. -/
theorem directoryResult_collects (start : Text)
    (is : FileTree.isDirectory tree directory = true) :
    Collects tree (directoryResult tree start directory) (GroupBelow tree start directory) :=
  (Collects.mapM _ fun file _ => groupResult_collects tree _ file).congr
    (walk_groupBelow start is)

/-- The directories in a directory are those of its entries that lead to one. -/
theorem mem_directoriesIn {path : Path} : path ∈ directoriesIn tree directory ↔
    ∃ name, FileTree.Lists tree directory name ∧ path = directory.child name ∧
      FileTree.isDirectory tree path = true := by
  unfold directoriesIn FileTree.Lists
  cases FileTree.lookup? tree directory with
  | none => simp
  | some entry =>
      simp only [List.mem_filter, List.mem_map, Text.sortMember, Option.some.injEq]
      constructor
      · rintro ⟨⟨name, ⟨⟨name, inner⟩, member, rfl⟩, rfl⟩, is⟩
        exact ⟨name, ⟨entry, inner, rfl, member⟩, rfl, is⟩
      · rintro ⟨name, ⟨_, inner, rfl, member⟩, rfl, is⟩
        exact ⟨⟨name, ⟨(name, inner), member, rfl⟩, rfl⟩, is⟩

theorem child_name (directory : Path) (name : Text) : (directory.child name).name = name := by
  simp [Path.name, Path.child]

/-- The keys of one package without what is reported. -/
def packageResult (tree : Entry) (locale : Text) (package : Path) :
    Except LoadError (List Text) :=
  let inside := package.append (Path.ofText locale)
  if FileTree.isDirectory tree inside then
    directoryResult tree (packageStart (some package.name)) inside
  else .ok []

/-- The load of a package collects its groups. -/
theorem packageResult_collects (tree : Entry) (locale : Text) (package : Path) :
    Collects tree (packageResult tree locale package) fun file =>
      FileTree.isDirectory tree (package.append (Path.ofText locale)) = true ∧
        GroupBelow tree (package.name ++ "::") (package.append (Path.ofText locale)) file := by
  unfold packageResult
  simp only
  split
  · rename_i is
    exact (directoryResult_collects _ is).congr fun file => by simp [is, packageStart]
  · rename_i other
    exact Collects.none.congr fun file => by simp [other]

/-- The keys of all packages without what is reported. -/
def packagesResult (tree : Entry) (directory : Path) (locale : Text) :
    Except LoadError (List Text) := do
  return (← (directoriesIn tree (packagesPath directory)).mapM (packageResult tree locale)).flatten

/-- The load of the packages gives their keys, whatever it reports. -/
theorem packageKeys_gives (tree : Entry) (directory : Path) (locale : Text) :
    (packageKeys tree directory locale).Gives (packagesResult tree directory locale) := by
  refine Load.gives_bind (Load.gives_mapM (fun package => ?_) _) fun _ => Load.gives_pure _
  unfold packageResult
  simp only
  split
  · exact directoryKeys_gives tree _ _
  · exact Load.gives_pure []

/-- The load of the packages collects the groups of all of them. -/
theorem packages_collects (tree : Entry) (directory : Path) (locale : Text) :
    Collects tree (packagesResult tree directory locale) (PackageGroup tree directory locale) := by
  refine (Collects.mapM _ fun package _ => packageResult_collects tree locale package).congr
    fun file => ?_
  simp only [mem_directoriesIn]
  constructor
  · rintro ⟨path, ⟨package, listed, rfl, is⟩, inside, below⟩
    rw [child_name] at below
    exact ⟨package, listed, is, inside, below⟩
  · rintro ⟨package, listed, is, inside, below⟩
    exact ⟨_, ⟨package, listed, rfl, is⟩, inside, by rwa [child_name]⟩

end

/-- The keys of a locale as a new catalog tells them. -/
def freshKeys (directory : Path) (locale : Text) (tree : Entry) : Except LoadError (List Text) :=
  ((KeyCatalog.ofDirectory directory).keys tree locale).result

section

variable {tree : Entry} {directory : Path} {locale : Text}

/-- A new catalog tells what the load of the locale gives. -/
theorem freshKeys_of_gives {result : Except LoadError (List Text)}
    (gives : (loadKeys tree directory locale).Gives result) :
    freshKeys directory locale tree = result := by
  have given := gives []
  have absent : KeyTable.lookup? [] locale = none := rfl
  simp only [freshKeys, KeyCatalog.ofDirectory, KeyCatalog.keys, absent]
  generalize (loadKeys tree directory locale).run [] = load at given ⊢
  obtain ⟨answer, records⟩ := load
  obtain rfl : answer = result := given
  cases answer <;> rfl

/-- A locale that is not known is an error. -/
theorem freshKeys_unknown (unknown : ¬ IsKnown tree directory locale) :
    freshKeys directory locale tree =
      .error (.emptyLocale locale (namesPath directory locale).name directory) := by
  simp only [IsKnown, namesPath, localePath, not_or, Bool.not_eq_true] at unknown
  refine freshKeys_of_gives ?_
  simp only [loadKeys, unknown, Bool.not_false, Bool.and_self, if_true]
  exact fun _ => rfl

/-- The keys of a file of names that may be missing. -/
def namesResult (tree : Entry) (path : Path) : Except LoadError (List Text) :=
  if FileTree.isFile tree path then jsonKeys tree path else .ok []

/-- The keys of a directory that may be missing. -/
def ownResult (tree : Entry) (directory : Path) : Except LoadError (List Text) :=
  if FileTree.isDirectory tree directory then directoryResult tree [] directory else .ok []

/-- The keys of names, groups and packages one after the other. -/
def inTurn (names own packages : Except LoadError (List Text)) : Except LoadError (List Text) := do
  let near : Except LoadError (List Text) := do return (← names) ++ (← own)
  return (← near) ++ (← packages)

/-- The keys of a known locale, with repetitions. -/
def allKeys (tree : Entry) (directory : Path) (locale : Text) : Except LoadError (List Text) :=
  inTurn (namesResult tree (namesPath directory locale))
    (ownResult tree (localePath directory locale)) (packagesResult tree directory locale)

/-- The three loads of a known locale follow each other. -/
theorem loadKeys_gives {first second third : Load (List Text)}
    {names own packages : Except LoadError (List Text)} (givesNames : first.Gives names)
    (givesOwn : second.Gives own) (givesPackages : third.Gives packages) :
    Load.Gives (do
        let fromNames ← first
        let fromDirectory ← second
        let fromPackages ← third
        return Text.unique (fromNames ++ fromDirectory ++ fromPackages))
      ((inTurn names own packages).map Text.unique) := by
  have gives := Load.gives_bind givesNames fun fromNames => Load.gives_bind givesOwn
    fun fromDirectory => Load.gives_bind givesPackages fun fromPackages =>
      Load.gives_pure (Text.unique (fromNames ++ fromDirectory ++ fromPackages))
  refine fun records => (gives records).trans ?_
  cases names with
  | error e => rfl
  | ok keys =>
      cases own with
      | error e => rfl
      | ok others => cases packages <;> rfl

/-- A new catalog tells all keys of a known locale, each of them once. -/
theorem freshKeys_known (known : IsKnown tree directory locale) :
    freshKeys directory locale tree = (allKeys tree directory locale).map Text.unique := by
  refine freshKeys_of_gives ?_
  have packages := packageKeys_gives tree directory locale
  have absent : Load.Gives (pure [] : Load (List Text)) (.ok []) := Load.gives_pure []
  unfold IsKnown namesPath localePath at known
  unfold loadKeys allKeys namesResult ownResult namesPath localePath
  cases names : FileTree.isFile tree (directory.append (Path.ofText (locale ++ ".json"))) <;>
    cases own : FileTree.isDirectory tree (directory.append (Path.ofText locale)) <;>
    simp only [names, own, Bool.not_true, Bool.not_false, Bool.and_false, Bool.and_self,
      Bool.false_and, Bool.false_eq_true, if_true, if_false]
  · simp [names, own] at known
  · exact loadKeys_gives absent (directoryKeys_gives tree none _) packages
  · exact loadKeys_gives (Load.gives_attempt _) absent packages
  · exact loadKeys_gives (Load.gives_attempt _) (directoryKeys_gives tree none _) packages

/-- The load of names collects the file of names, if it is there. -/
theorem namesResult_collects (tree : Entry) (path : Path) :
    Collects tree (namesResult tree path) fun file =>
      FileTree.isFile tree path = true ∧ file = .names path := by
  unfold namesResult
  split
  · rename_i is
    exact (jsonKeys_collects tree path).congr fun file => by simp [is]
  · rename_i other
    exact Collects.none.congr fun file => by simp [other]

/-- The load of a directory that may be missing collects the groups below it. -/
theorem ownResult_collects (tree : Entry) (directory : Path) :
    Collects tree (ownResult tree directory) (GroupBelow tree [] directory) := by
  unfold ownResult
  split
  · rename_i is
    exact directoryResult_collects [] is
  · rename_i other
    refine Collects.none.congr fun file => ⟨False.elim, ?_⟩
    rintro ⟨above, stem, -, below, -⟩
    exact other (FileTree.isDirectory_of_below below)

/-- The load of a locale collects the files that belong to it. -/
theorem allKeys_collects (tree : Entry) (directory : Path) (locale : Text) :
    Collects tree (allKeys tree directory locale)
      (LanguageFile.Belongs tree directory locale) := by
  refine (((namesResult_collects tree _).append (ownResult_collects tree _)).append
    (packages_collects tree directory locale)).congr fun file => ?_
  constructor
  · rintro ((⟨present, rfl⟩ | below) | below)
    · exact .names present
    · exact .own below
    · exact .package below
  · intro belongs
    cases belongs with
    | names present => exact .inl (.inl ⟨present, rfl⟩)
    | own below => exact .inl (.inr below)
    | package below => exact .inr below

/-- Leaving out repetitions changes nothing in what is collected. -/
theorem Collects.unique {result : Except LoadError (List Text)} {Wanted : LanguageFile → Prop}
    (collects : Collects tree result Wanted) : Collects tree (result.map Text.unique) Wanted := by
  have wanted := collects.whole
  cases result with
  | error e => exact ⟨by simpa [Except.map] using wanted, by simp [Except.map]⟩
  | ok all =>
      refine ⟨by simpa [Except.map] using wanted, fun keys success key => ?_⟩
      obtain rfl := Except.ok.inj success
      rw [Text.uniqueMember, collects.union all rfl]

/-- A known locale has the keys of its files. -/
theorem freshKeys_collects (known : IsKnown tree directory locale) :
    Collects tree (freshKeys directory locale tree)
      (LanguageFile.Belongs tree directory locale) := by
  rw [freshKeys_known known]
  exact (allKeys_collects tree directory locale).unique

/-- A new catalog tells each key once. -/
theorem freshKeys_nodup {keys : List Text} (success : freshKeys directory locale tree = .ok keys) :
    keys.Nodup := by
  by_cases known : IsKnown tree directory locale
  · rw [freshKeys_known known] at success
    cases all : allKeys tree directory locale with
    | error e => simp [all, Except.map] at success
    | ok repeated =>
        rw [all] at success
        obtain rfl := Except.ok.inj success
        exact Text.uniqueNodup repeated
  · simp [freshKeys_unknown known] at success

/-- A load succeeds for a known locale if all its files are valid, and only then. -/
theorem freshKeys_success : (∃ keys, freshKeys directory locale tree = .ok keys) ↔
    IsKnown tree directory locale ∧
      ∀ file, LanguageFile.Belongs tree directory locale file →
        ∃ own, file.Defines tree own := by
  by_cases known : IsKnown tree directory locale
  · simp only [known, true_and, (freshKeys_collects known).whole]
  · simp [known, freshKeys_unknown known]

end

end Untranslated.Catalog
