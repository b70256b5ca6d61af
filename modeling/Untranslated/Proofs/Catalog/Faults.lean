/-
This file tells when a catalog ends in a fault. In every other case it has keys or an error that is
reported.
-/

import Untranslated.Fault
import Untranslated.Proofs.Catalog.Union
import Untranslated.Proofs.Json.Oversized
import Untranslated.Proofs.Php.UnreadableKeys

namespace Untranslated.Catalog

open FileTree (Entry Path)
open Json (LongInteger)
open Php (FirstUnreadable KeyError Program)

/-- The fault that a load ends in. An error that is reported is none. -/
def faultOf? {A : Type} : Except LoadError A → Option Fault
  | .ok _ => none
  | .error e => e.fault?

/-- A load ends in a fault just when a key cannot be read. -/
theorem faultOf?_eq_some {A : Type} {result : Except LoadError A} {fault : Fault} :
    faultOf? result = some fault ↔ ∃ e : KeyError, result = .error (.key e) ∧ e.fault = fault := by
  cases result with
  | ok value => simp [faultOf?]
  | error e => cases e <;> simp [faultOf?, LoadError.fault?]

/-- A file of names faults for an integer that is too long, and one of code for a key that cannot be
read. -/
inductive LanguageFile.Faults (tree : Entry) : LanguageFile → KeyError → Prop where
  | names {path : Path} {text : List Char} {e : Json.ParseError}
      (read : FileTree.readText tree .utf8 path = .ok text) (refused : Json.parse text = .error e)
      (cause : e.cause = .integerTooLong) (stands : LongInteger text e.position) :
      Faults tree (.names path) .numeral
  | group {name : Text} {path : Path} {text : List Char} {program : Program} {array : Php.Node}
      {e : KeyError} (read : FileTree.readText tree .utf8 path = .ok text)
      (parsed : Php.parse text (some path.text) = .ok program)
      (returned : program.returnedArray? = some array)
      (unreadable : FirstUnreadable program.source.written array e) :
      Faults tree (.group name path) e

section

variable {tree : Entry} {path : Path} {e : KeyError}

/-- A file that cannot be read is reported, and that is no fault. -/
theorem readFile_error {cause : LoadError} (failed : readFile tree path = .error cause) :
    ∃ own, cause = .unreadable path own := by
  unfold readFile at failed
  split at failed
  · cases failed
  · cases failed
    exact ⟨_, rfl⟩

/-- Names in JSON fault just when an integer is too long. -/
theorem jsonKeys_fault :
    jsonKeys tree path = .error (.key e) ↔ (LanguageFile.names path).Faults tree e := by
  unfold jsonKeys
  constructor
  · intro failed
    rcases bind_eq_error.mp failed with failed | ⟨text, read, failed⟩
    · obtain ⟨own, stands⟩ := readFile_error failed
      cases stands
    · split at failed
      · cases failed
      · cases failed
      · next own refused =>
        split at failed
        · next cause =>
          cases failed
          exact .names (readFile_eq_ok.mp read) refused cause
            (Json.parse_longInteger refused cause)
        · cases failed
  · rintro ⟨read, refused, cause, stands⟩
    simp [readFile_eq_ok.mpr read, bind, Except.bind, refused, cause, throw, throwThe,
      MonadExceptOf.throw]

/-- Code faults just when the first key that cannot be read is in its array. -/
theorem codeKeys_fault {source : List Char} {own : Option Text} :
    codeKeys source own = .error (.inr e) ↔ ∃ program array, Php.parse source own = .ok program ∧
      program.returnedArray? = some array ∧ FirstUnreadable program.source.written array e := by
  unfold codeKeys
  cases parsed : Php.parse source own with
  | error cause => simp
  | ok program =>
      have told : program.returnedKeys = .error e ↔ _ := Php.returnedKeys_eq_error
      cases keys : program.returnedKeys with
      | error cause => simp [← told, keys]
      | ok found => cases found <;> simp [← told, keys]

/-- The load of a group faults as its file does. -/
theorem groupResult_fault {group : Text} :
    groupResult tree group path = .error (.key e) ↔
      (LanguageFile.group group path).Faults tree e := by
  unfold groupResult
  constructor
  · intro failed
    rcases bind_eq_error.mp failed with failed | ⟨text, read, failed⟩
    · obtain ⟨own, stands⟩ := readFile_error failed
      cases stands
    · split at failed
      · cases failed
      · next own unreadable =>
        cases failed
        obtain ⟨program, array, parsed, returned, first⟩ := codeKeys_fault.mp unreadable
        exact .group (readFile_eq_ok.mp read) parsed returned first
      · cases failed
  · intro faults
    cases faults with
    | group read parsed returned first =>
        have unreadable := codeKeys_fault.mpr ⟨_, _, parsed, returned, first⟩
        simp [readFile_eq_ok.mpr read, bind, Except.bind, unreadable, throw, throwThe,
          MonadExceptOf.throw]

end

/-- What a load makes of one file. -/
def LanguageFile.result (tree : Entry) : LanguageFile → Except LoadError (List Text)
  | .names path => jsonKeys tree path
  | .group name path => groupResult tree name path

/-- A file gives the keys that it defines. -/
theorem LanguageFile.result_eq_ok {tree : Entry} {file : LanguageFile} {keys : List Text} :
    file.result tree = .ok keys ↔ file.Defines tree keys := by
  cases file with
  | names path => exact jsonKeys_eq_ok
  | group name path => exact groupResult_eq_ok

/-- A load of one file faults as the file does. -/
theorem LanguageFile.result_fault {tree : Entry} {file : LanguageFile} {e : KeyError} :
    file.result tree = .error (.key e) ↔ file.Faults tree e := by
  cases file with
  | names path => exact jsonKeys_fault
  | group name path => exact groupResult_fault

/-- The keys of files in a row. The first file that fails is the failure of all. -/
def together (tree : Entry) (files : List LanguageFile) : Except LoadError (List Text) :=
  (files.mapM (LanguageFile.result tree)).map List.flatten

/-- The files of code below a directory in the order of their loads. -/
def codeFiles (tree : Entry) (start : Text) (directory : Path) : List LanguageFile :=
  ((FileTree.walk tree directory).filter (Path.suffixOf ·.name == codeSuffix)).map fun file =>
    .group (start ++ groupName directory file) file

/-- The files of code below a directory, if it is one. -/
def ownFiles (tree : Entry) (start : Text) (directory : Path) : List LanguageFile :=
  if FileTree.isDirectory tree directory then codeFiles tree start directory else []

/-- The files of a locale in the order of their loads. -/
def languageFiles (tree : Entry) (directory : Path) (locale : Text) : List LanguageFile :=
  (if FileTree.isFile tree (namesPath directory locale) then [.names (namesPath directory locale)]
    else []) ++
  ownFiles tree [] (localePath directory locale) ++
  (directoriesIn tree (packagesPath directory)).flatMap fun package =>
    ownFiles tree (packageStart (some package.name)) (package.append (Path.ofText locale))

section

variable {tree : Entry}

/-- Files in a row are loaded one part after the other. -/
theorem together_append (first second : List LanguageFile) :
    together tree (first ++ second) =
      (do return (← together tree first) ++ (← together tree second)) := by
  unfold together
  rw [List.mapM_append]
  cases first.mapM (LanguageFile.result tree) with
  | error e => rfl
  | ok keys =>
      cases second.mapM (LanguageFile.result tree) with
      | error e => rfl
      | ok others => exact congrArg Except.ok List.flatten_append

/-- A single file is loaded by itself. -/
theorem together_one (file : LanguageFile) : together tree [file] = file.result tree := by
  rw [together, List.mapM_cons]
  cases file.result tree with
  | error e => rfl
  | ok keys => exact congrArg Except.ok (List.append_nil keys)

/-- Groups of files are loaded group by group. -/
theorem together_flatMap {A : Type} (files : A → List LanguageFile) (values : List A) :
    together tree (values.flatMap files) =
      (do return (← values.mapM fun value => together tree (files value)).flatten) := by
  induction values with
  | nil => rfl
  | cons value rest inductionHypothesis =>
      rw [List.flatMap_cons, together_append, inductionHypothesis, List.mapM_cons]
      cases together tree (files value) with
      | error e => rfl
      | ok keys => cases rest.mapM fun value => together tree (files value) <;> rfl

/-- The load of a directory is that of its files. -/
theorem directoryResult_together (start : Text) (directory : Path) :
    directoryResult tree start directory = together tree (codeFiles tree start directory) := by
  unfold directoryResult together codeFiles
  rw [List.mapM_map]
  generalize (FileTree.walk tree directory).filter (Path.suffixOf ·.name == codeSuffix) = files
  change (do
    let keys ← files.mapM (LanguageFile.result tree ∘ fun file =>
      .group (start ++ groupName directory file) file)
    return keys.flatten) = _
  cases files.mapM (LanguageFile.result tree ∘ fun file =>
    .group (start ++ groupName directory file) file) <;> rfl

/-- The load of a directory that may be missing is that of its files. -/
theorem ownFiles_together (start : Text) (directory : Path) :
    (if FileTree.isDirectory tree directory then directoryResult tree start directory else .ok []) =
      together tree (ownFiles tree start directory) := by
  unfold ownFiles
  split
  · exact directoryResult_together start directory
  · rfl

/-- The load of a locale is that of its files. -/
theorem allKeys_together (directory : Path) (locale : Text) :
    allKeys tree directory locale = together tree (languageFiles tree directory locale) := by
  have names (path : Path) : namesResult tree path =
      together tree (if FileTree.isFile tree path then [.names path] else []) := by
    unfold namesResult
    split
    · exact (together_one (.names path)).symm
    · rfl
  have packages : packagesResult tree directory locale =
      together tree ((directoriesIn tree (packagesPath directory)).flatMap fun package =>
        ownFiles tree (packageStart (some package.name))
          (package.append (Path.ofText locale))) := by
    rw [together_flatMap]
    simp only [← ownFiles_together]
    rfl
  unfold allKeys languageFiles
  rw [names, packages, together_append, together_append, ← ownFiles_together]
  rfl

/-- The own files are those that belong to a group below the directory. -/
theorem mem_ownFiles {start : Text} {directory : Path} {file : LanguageFile} :
    file ∈ ownFiles tree start directory ↔ GroupBelow tree start directory file := by
  unfold ownFiles
  split
  · next is =>
    rw [← walk_groupBelow start is, codeFiles, List.mem_map]
    simp only [eq_comm]
  · next other =>
    simp only [List.not_mem_nil, false_iff]
    rintro ⟨above, stem, -, below, -⟩
    exact other (FileTree.isDirectory_of_below below)

/-- The files that are loaded are those that belong to the locale. -/
theorem mem_languageFiles {directory : Path} {locale : Text} {file : LanguageFile} :
    file ∈ languageFiles tree directory locale ↔ file.Belongs tree directory locale := by
  have package : (∃ package ∈ directoriesIn tree (packagesPath directory), GroupBelow tree
      (packageStart (some package.name)) (package.append (Path.ofText locale)) file) ↔
        PackageGroup tree directory locale file := by
    simp only [mem_directoriesIn]
    constructor
    · rintro ⟨_, ⟨name, listed, rfl, is⟩, below⟩
      rw [child_name] at below
      obtain ⟨above, stem, -, inside, -⟩ := id below
      exact ⟨name, listed, is, FileTree.isDirectory_of_below inside, below⟩
    · rintro ⟨name, listed, is, -, below⟩
      exact ⟨_, ⟨name, listed, rfl, is⟩, by rwa [child_name]⟩
  unfold languageFiles
  rw [List.mem_append, List.mem_append, List.mem_flatMap]
  simp only [mem_ownFiles, package]
  constructor
  · rintro ((names | below) | below)
    · split at names
      · next present =>
        rw [List.mem_singleton.mp names]
        exact .names present
      · cases names
    · exact .own below
    · exact .package below
  · intro belongs
    cases belongs with
    | names present => exact .inl (.inl (by simp [present]))
    | own below => exact .inl (.inr below)
    | package below => exact .inr below

/-- A file faults, and all files before it define their keys. -/
def FaultsFirst (tree : Entry) (files : List LanguageFile) (e : KeyError) : Prop :=
  ∃ before file after, files = before ++ file :: after ∧
    (∀ earlier ∈ before, ∃ own, earlier.Defines tree own) ∧ file.Faults tree e

/-- A load of files faults with the first that faults, if those before it define keys. -/
theorem together_fault {files : List LanguageFile} {e : KeyError} :
    together tree files = .error (.key e) ↔ FaultsFirst tree files e := by
  rw [together, map_eq_error, mapM_eq_error]
  simp only [FailsFirst, FaultsFirst, LanguageFile.result_eq_ok, LanguageFile.result_fault]

/-- A first load faults with the first file of a known locale that faults. -/
theorem freshKeys_fault {directory : Path} {locale : Text} {e : KeyError} :
    freshKeys directory locale tree = .error (.key e) ↔
      IsKnown tree directory locale ∧ FaultsFirst tree (languageFiles tree directory locale) e := by
  by_cases known : IsKnown tree directory locale
  · rw [freshKeys_known known, map_eq_error, allKeys_together, together_fault]
    simp [known]
  · simp [freshKeys_unknown known, known]

/-- A locale without loaded keys is loaded afresh. -/
theorem KeyCatalog.keys_fresh {directory : Path} {loaded : KeyTable} {locale : Text}
    (absent : loaded.lookup? locale = none) :
    ((KeyCatalog.directory directory loaded).keys tree locale).result =
      freshKeys directory locale tree := by
  have fresh : KeyTable.lookup? [] locale = none := rfl
  simp only [freshKeys, KeyCatalog.ofDirectory, KeyCatalog.keys, absent, fresh]
  generalize (loadKeys tree directory locale).run [] = load
  obtain ⟨answer, records⟩ := load
  cases answer <;> rfl

/-- A question faults just when the load of the locale does. -/
theorem KeyCatalog.has_fault (catalog : KeyCatalog) (key locale : Text) :
    faultOf? (catalog.has tree key locale).result = faultOf? (catalog.keys tree locale).result := by
  rw [KeyCatalog.has, Answer.map]
  cases (catalog.keys tree locale).result <;> rfl

end

/-- A question about a locale ends in a fault exactly if the keys of the locale have to be loaded and
the first of its files that is not valid has an integer or a key that cannot be read. In every other
case there is an answer or an error that is reported. -/
theorem catalog_fault_iff (tree : Entry) (directory : Path) (loaded : KeyTable) (key locale : Text)
    (fault : Fault) :
    let catalog := KeyCatalog.directory directory loaded
    let Faulty := loaded.lookup? locale = none ∧ IsKnown tree directory locale ∧
      ∃ e : KeyError, e.fault = fault ∧ FaultsFirst tree (languageFiles tree directory locale) e
    (faultOf? (catalog.keys tree locale).result = some fault ↔ Faulty) ∧
      (faultOf? (catalog.has tree key locale).result = some fault ↔ Faulty) := by
  intro catalog Faulty
  have keys : faultOf? (catalog.keys tree locale).result = some fault ↔ Faulty := by
    cases found : loaded.lookup? locale with
    | some own =>
        simp only [Faulty, found, reduceCtorEq, false_and, iff_false]
        simp [catalog, KeyCatalog.keys, found, faultOf?]
    | none =>
        rw [KeyCatalog.keys_fresh found, faultOf?_eq_some]
        simp only [freshKeys_fault, Faulty, found, true_and]
        tauto
  exact ⟨keys, by rw [KeyCatalog.has_fault]; exact keys⟩

/-- A language file with an escape beyond the last code point. -/
def oversizedFile : Entry :=
  .directory [("lang", .directory [("fr", .directory [("a.php", .file
    (Utf8.encode "<?php return [\"\\u\x7b110000\x7d\" => 1];".toList))])])]

/-- Not every failure of a catalog is reported. -/
theorem catalog_fault_oversizedKey : ¬ ∀ tree directory locale,
    faultOf? ((KeyCatalog.ofDirectory directory).keys tree locale).result = none := by
  intro reported
  have fault : faultOf? ((KeyCatalog.ofDirectory (Path.ofText "lang")).keys oversizedFile
      "fr").result = some .value := by
    decide +kernel
  rw [reported] at fault
  cases fault

end Untranslated.Catalog
