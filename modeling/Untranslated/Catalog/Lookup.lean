/-
This file defines catalogs, which tell what keys a locale has.
A directory catalog keeps the keys of every locale that it has loaded.
-/

import Untranslated.Catalog.LanguageFile

namespace Untranslated.Catalog

open FileTree (Entry Path)

/-- The keys of some locales. -/
abbrev KeyTable := List (Text × List Text)

def KeyTable.lookup? (table : KeyTable) (locale : Text) : Option (List Text) :=
  (table.find? (·.1 = locale)).map (·.2)

inductive KeyCatalog where
  | memory (table : KeyTable)
  | directory (path : Path) (loaded : KeyTable)

def KeyCatalog.ofDirectory (path : Path) : KeyCatalog := .directory path []

/-- A question may change what a catalog has loaded, and it may be reported. -/
structure Answer (A : Type) (C : Type := KeyCatalog) where
  result : Except LoadError A
  catalog : C
  records : List Record

def Answer.map {A B : Type} (f : A → B) (answer : Answer A) : Answer B :=
  ⟨answer.result.map f, answer.catalog, answer.records⟩

def loadedRecord (count : Nat) (locale : Text) (path : Path) : Record :=
  ⟨.debug, origin,
    "Loaded " ++ Text.ofNat count ++ " keys for locale " ++ locale ++ " from " ++ path.text⟩

/-- The keys of a locale. A failure leaves nothing behind in the catalog. -/
def KeyCatalog.keys (tree : Entry) (locale : Text) (catalog : KeyCatalog) : Answer (List Text) :=
  match catalog with
  | .memory table =>
    match table.lookup? locale with
    | some keys => ⟨.ok keys, catalog, []⟩
    | none => ⟨.error (.unknownLocale locale), catalog, []⟩
  | .directory path loaded =>
    match loaded.lookup? locale with
    | some keys => ⟨.ok keys, catalog, []⟩
    | none =>
      match (loadKeys tree path locale).run [] with
      | (.error e, records) => ⟨.error e, catalog, records⟩
      | (.ok keys, records) =>
        ⟨.ok keys, .directory path ((locale, keys) :: loaded),
          records ++ [loadedRecord keys.length locale path]⟩

/-- A key is present if the locale itself defines it. -/
def KeyCatalog.has (tree : Entry) (key locale : Text) (catalog : KeyCatalog) : Answer Bool :=
  (catalog.keys tree locale).map (·.contains key)

/-- The locales of a catalog in memory. -/
def KeyCatalog.locales : KeyCatalog → List Text
  | .memory table => Text.sort (table.map (·.1))
  | .directory _ _ => []

/-- A finder asks a catalog of keys, or any other one, which answers for itself. -/
inductive LocaleCatalog where
  | keys (catalog : KeyCatalog)
  | other (has : Text → Text → Except LoadError Bool)

instance : Coe KeyCatalog LocaleCatalog := ⟨.keys⟩

def LocaleCatalog.has (tree : Entry) (key locale : Text) :
    LocaleCatalog → Answer Bool LocaleCatalog
  | .keys catalog =>
    let answer := catalog.has tree key locale
    ⟨answer.result, .keys answer.catalog, answer.records⟩
  | .other has => ⟨has key locale, .other has, []⟩

def standardDirectories : List Text := ["lang", "resources/lang"]

/-- The configured directory, or the first standard one that exists. -/
def languageDirectory (tree : Entry) (base : Path) (configured : Option Text) : Path :=
  let standard := standardDirectories.map fun name => base.append (Path.ofText name)
  match configured with
  | some (c :: rest) => base.append (Path.ofText (c :: rest))
  | _ =>
    (standard.find? (FileTree.isDirectory tree)).getD (base.append (Path.ofText "lang"))

end Untranslated.Catalog
