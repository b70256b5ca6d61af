/-
This file tells what a configuration and an environment say about each setting, and which of them
are refused. A setting that a layer says nothing about stays as it was before it.
-/

import Untranslated.Proofs.Configuration.Faults
import Untranslated.Proofs.Text.Splitting

namespace Untranslated.Configuration

open Call (Targets)
open FileTree (Entry Path)
open Json (Value)

/-- A text that is not empty. -/
def IsFilled (value : Value) (t : Text) : Prop := value = .string t ∧ t ≠ []

/-- A list of texts. A single one needs no list. -/
inductive ListsTexts : Value → List Text → Prop where
  | one (t : Text) : ListsTexts (.string t) [t]
  | many (ts : List Text) : ListsTexts (.array (ts.map .string)) ts

/-- Stars in front of a suffix do not count. -/
def ListsSuffixes (value : Value) (suffixes : List Text) : Prop :=
  ∃ ts, ListsTexts value ts ∧ ts.map withoutStars = suffixes

/-- The text by which a value is shown. -/
def IsBare (value : Value) (t : Text) : Prop := t = value.bare

/-- An integer, the whole part of a number, a truth value, or an integer in a text. -/
inductive IsInteger : Value → Int → Prop where
  | bool (b : Bool) : IsInteger (.bool b) (if b then 1 else 0)
  | integer (n : Int) : IsInteger (.integer n) n
  | real {x : Decimal.Binary64} {n : Int} (whole : x.truncate? = some n) : IsInteger (.real x) n
  | text {t : Text} {n : Int} (read : Text.integer? t = some n) : IsInteger (.string t) n

/-- An integer above zero. -/
def CountsWorkers (value : Value) (n : Int) : Prop := IsInteger value n ∧ 1 ≤ n

/-- Targets that can be read from the value. -/
def NamesTargets (value : Value) (targets : Targets) : Prop :=
  ∃ members, value = .object members ∧ Targets.ofMembers members = .ok targets

section

variable {A : Type} {name : Text} {value : Value}

/-- A text is read from a value just when the value is this text. -/
theorem nonEmptyText_eq_ok {t : Text} : nonEmptyText value = .ok t ↔ IsFilled value t := by
  unfold nonEmptyText IsFilled
  split
  · next c rest =>
    constructor
    · rintro ⟨⟩
      exact ⟨rfl, List.cons_ne_nil c rest⟩
    · rintro ⟨⟨⟩, -⟩
      rfl
  · next other =>
    simp only [reduceCtorEq, false_iff, not_and, not_not]
    rintro rfl
    cases t with
    | nil => rfl
    | cons c rest => exact absurd rfl (other c rest)

/-- Texts are read from a value just when it lists them. -/
theorem texts_eq_ok {ts : List Text} : texts name value = .ok ts ↔ ListsTexts value ts := by
  constructor
  · intro told
    unfold texts at told
    split at told
    · cases told
      exact .one _
    · split at told
      · next read =>
        cases told
        rw [mapM_textOf?.mp read]
        exact .many _
      · cases told
    · cases told
  · rintro (t | ts)
    · rfl
    · simp [texts, mapM_textOf?.mpr rfl]

/-- An integer is read from a value just when the value stands for it. -/
theorem integerOf_eq_ok {n : Int} : integerOf name value = .ok n ↔ IsInteger value n := by
  constructor
  · intro told
    unfold integerOf at told
    split at told
    · cases told
      exact .bool _
    · cases told
      exact .integer _
    · cases told
    · split at told
      · next whole =>
        cases told
        exact .real whole
      · cases told
    · split at told
      · next read =>
        cases told
        exact .text read
      · cases told
    · cases told
  · rintro (b | _ | whole | read)
    · rfl
    · rfl
    · next x =>
      cases x with
      | infinite negative => cases whole
      | finite negative mantissa exponent => simp [integerOf, whole]
      | notANumber => cases whole
    · simp [integerOf, read]

/-- A number of workers is read from a value just when it counts them. -/
theorem workerCount_eq_ok {n : Int} : workerCount name value = .ok n ↔ CountsWorkers value n := by
  rw [workerCount, bind_eq_ok]
  simp only [integerOf_eq_ok]
  constructor
  · rintro ⟨count, is, checked⟩
    split at checked
    · cases checked
    · next enough =>
      cases checked
      exact ⟨is, Int.not_lt.mp enough⟩
  · rintro ⟨is, enough⟩
    refine ⟨n, is, ?_⟩
    rw [if_neg (Int.not_lt.mpr enough)]
    rfl

/-- Targets are read from a value just when it names them. -/
theorem targetsOf_eq_ok {targets : Targets} :
    targetsOf value = .ok targets ↔ NamesTargets value targets := by
  constructor
  · intro told
    unfold targetsOf at told
    split at told
    · next members =>
      split at told
      · next read =>
        cases told
        exact ⟨members, rfl, read⟩
      · cases told
    · cases told
  · rintro ⟨members, rfl, read⟩
    simp [targetsOf, read]

variable {members : List (Text × Value)}

/-- An entry replaces what was there before, and without an entry that stays. -/
theorem entry_eq_ok {Means : Value → A → Prop} {old a : A} {read : Value → Except ConfigError A}
    (reads : ∀ value a, read value = .ok a ↔ Means value a) :
    entry members name old read = .ok a ↔
      ∃ said, Option.Rel Means (Value.lookup? members name) said ∧ a = said.getD old := by
  unfold entry
  cases Value.lookup? members name with
  | none =>
      constructor
      · rintro ⟨⟩
        exact ⟨none, .none, rfl⟩
      · rintro ⟨said, ⟨⟩, rfl⟩
        rfl
  | some value =>
      constructor
      · exact fun told => ⟨some a, .some ((reads value a).mp told), rfl⟩
      · rintro ⟨said, ⟨means⟩, rfl⟩
        exact (reads value _).mpr means

/-- The same for a setting that may be left open. -/
theorem openEntry_eq_ok {Means : Value → A → Prop} {old a : Option A}
    {read : Value → Except ConfigError A} (reads : ∀ value a, read value = .ok a ↔ Means value a) :
    entry members name old (fun value => (read value).map some) = .ok a ↔
      ∃ said, Option.Rel Means (Value.lookup? members name) said ∧ a = said.or old := by
  unfold entry
  cases Value.lookup? members name with
  | none =>
      constructor
      · rintro ⟨⟩
        exact ⟨none, .none, rfl⟩
      · rintro ⟨said, ⟨⟩, rfl⟩
        rfl
  | some value =>
      simp only [map_ok_iff, reads]
      constructor
      · rintro ⟨own, means, rfl⟩
        exact ⟨some own, .some means, rfl⟩
      · rintro ⟨said, ⟨means⟩, rfl⟩
        exact ⟨_, means, rfl⟩

/-- The settings after a configuration. Each comes from its own entry, if there is one. -/
structure Updated (members : List (Text × Value)) (old new : Settings) : Prop where
  baseLocale : ∃ said, Option.Rel IsFilled (Value.lookup? members "locale") said ∧
    new.baseLocale = said.getD old.baseLocale
  paths : ∃ said, Option.Rel ListsTexts (Value.lookup? members "paths") said ∧
    new.paths = said.getD old.paths
  languagePath : ∃ said, Option.Rel IsBare (Value.lookup? members "lang_path") said ∧
    new.languagePath = said.or old.languagePath
  suffixes : ∃ said, Option.Rel ListsSuffixes (Value.lookup? members "extensions") said ∧
    new.suffixes = said.getD old.suffixes
  workers : ∃ said, Option.Rel CountsWorkers (Value.lookup? members "max_workers") said ∧
    new.workers = said.or old.workers
  directives : ∃ said, Option.Rel ListsTexts (Value.lookup? members "blade_directives") said ∧
    new.directives = said.getD old.directives
  targets : ∃ said, Option.Rel NamesTargets (Value.lookup? members "detect") said ∧
    new.targets = said.getD old.targets

/-- A configuration updates the settings entry by entry. -/
theorem update_eq_ok {old new : Settings} :
    old.update members = .ok new ↔ Updated members old new := by
  have bare (value : Value) (t : Text) :
      (Except.ok value.bare : Except ConfigError Text) = .ok t ↔ IsBare value t := by
    simp [IsBare, eq_comm]
  have suffixes (value : Value) (ts : List Text) :
      (texts "extensions" value).map (·.map withoutStars) = .ok ts ↔ ListsSuffixes value ts := by
    simp only [map_ok_iff, texts_eq_ok, ListsSuffixes]
  have languagePath (path : Option Text) :
      entry members "lang_path" old.languagePath (fun value => .ok (some value.bare)) = .ok path ↔
        ∃ said, Option.Rel IsBare (Value.lookup? members "lang_path") said ∧
          path = said.or old.languagePath :=
    openEntry_eq_ok bare
  unfold Settings.update
  simp only [bind_eq_ok, pure, Except.pure, Except.ok.injEq, languagePath,
    entry_eq_ok fun _ _ => nonEmptyText_eq_ok, entry_eq_ok fun _ _ => texts_eq_ok,
    entry_eq_ok suffixes, openEntry_eq_ok fun _ _ => workerCount_eq_ok,
    entry_eq_ok fun _ _ => targetsOf_eq_ok]
  constructor
  · rintro ⟨_, locale, _, paths, _, path, _, endings, _, workers, _, directives, _, targets, rfl⟩
    exact ⟨locale, paths, path, endings, workers, directives, targets⟩
  · rintro ⟨locale, paths, path, endings, workers, directives, targets⟩
    exact ⟨_, locale, _, paths, _, path, _, endings, _, workers, _, directives, _, targets, rfl⟩

end

/-- The paths in a variable stand between colons. Empty ones do not count. -/
def ListsPaths (value : Text) (paths : List Text) : Prop :=
  ∃ parts ≠ [], Text.join [CodePoint.ofChar ':'] parts = value ∧
    (∀ part ∈ parts, CodePoint.ofChar ':' ∉ part) ∧ parts.filter (!·.isEmpty) = paths

/-- A text with an integer above zero. -/
def SpellsWorkers (value : Text) (n : Int) : Prop := Text.integer? value = some n ∧ 1 ≤ n

/-- The paths of a variable are those that stand between its colons. -/
theorem listsPaths_iff {value : Text} {paths : List Text} :
    ListsPaths value paths ↔ separatedPaths value = paths := by
  have noColon {c : CodePoint} :
      (c == CodePoint.ofChar ':') = false ↔ CodePoint.ofChar ':' ≠ c := by
    rw [beq_eq_false_iff_ne, ne_comm]
  constructor
  · rintro ⟨parts, filled, rfl, whole, rfl⟩
    have split : Text.splitAtChar ':' (Text.join [CodePoint.ofChar ':'] parts) = parts :=
      Text.splitWhere_join (by simp) filled fun part member c inside =>
        noColon.mpr fun same => whole part member (same ▸ inside)
    rw [separatedPaths, split]
  · rintro rfl
    refine ⟨Text.splitAtChar ':' value, Text.splitWhere_filled value,
      Text.join_splitAtChar ':' value, fun part member colon => ?_, rfl⟩
    exact noColon.mp (Text.mem_splitWhere member _ colon) rfl

/-- The overrides of an environment. It says nothing about suffixes and directives. -/
structure FromEnvironment (environment : Environment) (overrides : Overrides) : Prop where
  baseLocale : overrides.baseLocale = environment.lookup? "LIT_BASE_LOCALE"
  paths : Option.Rel ListsPaths (environment.lookup? "LIT_PATHS") overrides.paths
  languagePath : overrides.languagePath = environment.lookup? "LIT_LANG_PATH"
  suffixes : overrides.suffixes = none
  workers : Option.Rel SpellsWorkers (environment.lookup? workersVariable) overrides.workers
  directives : overrides.directives = none

/-- A variable that may be missing lists its paths, if it is there. -/
theorem rel_listsPaths_iff {value : Option Text} {said : Option (List Text)} :
    Option.Rel ListsPaths value said ↔ said = value.map separatedPaths := by
  constructor
  · rintro (means | _)
    · rw [Option.map_some, listsPaths_iff.mp means]
    · rfl
  · rintro rfl
    cases value with
    | none => exact .none
    | some value => exact .some (listsPaths_iff.mpr rfl)

/-- A variable that may be missing spells a number of workers, if it is there. -/
theorem variableWorkers_eq_ok {value : Option Text} {workers : Option Int} :
    value.mapM (fun t => workerCount workersVariable (.string t)) = .ok workers ↔
      Option.Rel SpellsWorkers value workers := by
  have spells {t : Text} {n : Int} : CountsWorkers (.string t) n ↔ SpellsWorkers t n := by
    refine and_congr_left fun _ => ⟨?_, .text⟩
    rintro ⟨⟩
    assumption
  cases value with
  | none =>
      constructor
      · rintro ⟨⟩
        exact .none
      · rintro ⟨⟩
        rfl
  | some t =>
      have told : (some t).mapM (fun t => workerCount workersVariable (.string t)) =
          (workerCount workersVariable (.string t)).map some := rfl
      simp only [told, map_ok_iff, workerCount_eq_ok, spells]
      constructor
      · rintro ⟨n, own, rfl⟩
        exact .some own
      · rintro ⟨own⟩
        exact ⟨_, own, rfl⟩

/-- The environment overrides what its variables say. -/
theorem environmentOverrides_eq_ok {environment : Environment} {overrides : Overrides} :
    environmentOverrides environment = .ok overrides ↔ FromEnvironment environment overrides := by
  unfold environmentOverrides
  simp only [bind_eq_ok, variableWorkers_eq_ok, pure, Except.pure, Except.ok.injEq]
  constructor
  · rintro ⟨workers, own, rfl⟩
    exact ⟨rfl, rel_listsPaths_iff.mpr rfl, rfl, rfl, own, rfl⟩
  · rintro ⟨locale, paths, path, suffixes, own, directives⟩
    rw [rel_listsPaths_iff] at paths
    obtain ⟨_, _, _, _, workers, _⟩ := overrides
    dsimp only at locale paths path suffixes directives own
    subst locale paths path suffixes directives
    exact ⟨workers, own, rfl⟩

/-- The entries of the configuration file. There are none without a file. -/
def Configures (tree : Entry) (given : Option Text) (directory : Path)
    (members : List (Text × Value)) : Prop :=
  match configurationPath? tree given directory with
  | none => members = []
  | some path => configuration tree path = .ok members

section

variable {tree : Entry} {given : Option Text} {environment : Environment} {directory : Path}

/-- The settings of a file are the defaults with its entries. -/
theorem fileSettings_eq_ok {settings : Settings} :
    fileSettings tree given directory = .ok settings ↔
      ∃ members, Configures tree given directory members ∧ Updated members .default settings := by
  simp only [← update_eq_ok]
  unfold fileSettings Configures configurationPath?
  cases given with
  | some path => exact bind_eq_ok
  | none =>
      dsimp only
      split
      · exact bind_eq_ok
      · have same : Settings.default.update [] = .ok .default := rfl
        simp [same, pure, Except.pure]

/-- Settings are loaded from the file, and the environment goes before it. -/
theorem load_eq_ok {settings : Settings} :
    load tree given environment directory = .ok settings ↔
      ∃ members file overrides, Configures tree given directory members ∧
        Updated members .default file ∧ FromEnvironment environment overrides ∧
        settings = file.override overrides := by
  unfold load
  simp only [bind_eq_ok, fileSettings_eq_ok, environmentOverrides_eq_ok, pure, Except.pure,
    Except.ok.injEq]
  constructor
  · rintro ⟨file, ⟨members, holds, updated⟩, overrides, own, rfl⟩
    exact ⟨members, file, overrides, holds, updated, own, rfl⟩
  · rintro ⟨members, file, overrides, holds, updated, own, rfl⟩
    exact ⟨file, ⟨members, holds, updated⟩, overrides, own, rfl⟩

/-- An entry or a variable is there and means nothing. -/
inductive Refused (members : List (Text × Value)) (environment : Environment) : Prop where
  | locale {value : Value} (found : Value.lookup? members "locale" = some value)
      (refused : ∀ t, ¬ IsFilled value t) : Refused members environment
  | paths {value : Value} (found : Value.lookup? members "paths" = some value)
      (refused : ∀ ts, ¬ ListsTexts value ts) : Refused members environment
  | suffixes {value : Value} (found : Value.lookup? members "extensions" = some value)
      (refused : ∀ ts, ¬ ListsTexts value ts) : Refused members environment
  | workers {value : Value} (found : Value.lookup? members "max_workers" = some value)
      (refused : ∀ n, ¬ CountsWorkers value n) : Refused members environment
  | directives {value : Value} (found : Value.lookup? members "blade_directives" = some value)
      (refused : ∀ ts, ¬ ListsTexts value ts) : Refused members environment
  | targets {value : Value} (found : Value.lookup? members "detect" = some value)
      (refused : ∀ targets, ¬ NamesTargets value targets) : Refused members environment
  | variableWorkers {value : Text} (found : environment.lookup? workersVariable = some value)
      (refused : ∀ n, ¬ SpellsWorkers value n) : Refused members environment

/-- What has a meaning is not refused. -/
theorem not_refused {A B : Type} {Means : A → B → Prop} {value : Option A} {a : A}
    {said : Option B} (means : Option.Rel Means value said) (found : value = some a)
    (refused : ∀ b, ¬ Means a b) : False := by
  subst found
  cases means with
  | some own => exact refused _ own

/-- With an entry or a variable that means nothing, no settings are loaded. -/
theorem load_refused {members : List (Text × Value)}
    (holds : Configures tree given directory members) (refused : Refused members environment) :
    ∃ e, load tree given environment directory = .error e := by
  cases told : load tree given environment directory with
  | error e => exact ⟨e, rfl⟩
  | ok settings =>
      obtain ⟨own, file, overrides, holdsToo, updated, fromVariables, -⟩ := load_eq_ok.mp told
      have same : own = members := by
        unfold Configures at holds holdsToo
        split at holds
        · next missing =>
          rw [missing] at holdsToo
          exact holdsToo.trans holds.symm
        · next path found =>
          rw [found] at holdsToo
          exact Except.ok.inj (holdsToo.symm.trans holds)
      subst same
      exfalso
      cases refused with
      | locale found refused =>
          obtain ⟨_, means, -⟩ := updated.baseLocale
          exact not_refused means found refused
      | paths found refused =>
          obtain ⟨_, means, -⟩ := updated.paths
          exact not_refused means found refused
      | suffixes found refused =>
          obtain ⟨_, means, -⟩ := updated.suffixes
          exact not_refused means found fun _ ⟨ts, own, _⟩ => refused ts own
      | workers found refused =>
          obtain ⟨_, means, -⟩ := updated.workers
          exact not_refused means found refused
      | directives found refused =>
          obtain ⟨_, means, -⟩ := updated.directives
          exact not_refused means found refused
      | targets found refused =>
          obtain ⟨_, means, -⟩ := updated.targets
          exact not_refused means found refused
      | variableWorkers found refused => exact not_refused fromVariables.workers found refused

end

end Untranslated.Configuration
