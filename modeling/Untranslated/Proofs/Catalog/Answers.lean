/-
This file proves that the answers of a catalog do not depend on what was asked before.
-/

import Untranslated.Catalog.Lookup

namespace Untranslated.Catalog

open FileTree (Entry)

section

variable {tree : Entry} {locale : Text}

theorem KeyTable.lookup_cons_self (table : KeyTable) (locale : Text) (keys : List Text) :
    KeyTable.lookup? ((locale, keys) :: table) locale = some keys := by
  simp [lookup?]

/-- A locale that has its keys has the same keys afterwards. -/
theorem KeyCatalog.keys_again {catalog : KeyCatalog} {keys : List Text}
    (present : (catalog.keys tree locale).result = .ok keys) :
    ((catalog.keys tree locale).catalog.keys tree locale).result = .ok keys := by
  cases catalog with
  | memory table =>
      cases found : table.lookup? locale with
      | none => simp [KeyCatalog.keys, found] at present
      | some own => simpa [KeyCatalog.keys, found] using present
  | directory path loaded =>
      cases found : loaded.lookup? locale with
      | some own => simpa [KeyCatalog.keys, found] using present
      | none =>
          cases load : (loadKeys tree path locale).run [] with
          | mk answer records =>
          cases answer with
          | error e => simp [KeyCatalog.keys, found, load] at present
          | ok own =>
              -- The locale is now among the loaded ones.
              simpa [KeyCatalog.keys, found, load, KeyTable.lookup_cons_self] using present

/-- A catalog that has the keys of a locale answers by them. -/
theorem KeyCatalog.has_ok {catalog : KeyCatalog} {keys : List Text}
    (present : (catalog.keys tree locale).result = .ok keys) (key : Text) :
    (catalog.has tree key locale).result = .ok (keys.contains key) := by
  simp [KeyCatalog.has, Answer.map, present, Except.map]

/-- An answer leaves a catalog that answers every question about the locale as before. -/
theorem LocaleCatalog.has_again {catalog : LocaleCatalog} {key : Text} {answer : Bool}
    (answered : (catalog.has tree key locale).result = .ok answer) (other : Text) :
    ((catalog.has tree key locale).catalog.has tree other locale).result =
      (catalog.has tree other locale).result := by
  cases catalog with
  | other has => rfl
  | keys catalog =>
      cases found : (catalog.keys tree locale).result with
      | error e =>
          simp [LocaleCatalog.has, KeyCatalog.has, Answer.map, found, Except.map] at answered
      | ok keys =>
          have again := KeyCatalog.has_ok (KeyCatalog.keys_again found) other
          exact again.trans (KeyCatalog.has_ok found other).symm

end

end Untranslated.Catalog
