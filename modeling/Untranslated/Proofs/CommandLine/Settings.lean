/-
This file proves where each setting of a run comes from. A flag goes before a variable of the
environment, a variable before the configuration file, and the file before the default. What is
wrong in the file or in a variable is an error all the same.
-/

import Untranslated.CommandLine.Run
import Untranslated.Proofs.Configuration.Layers

namespace Untranslated.CommandLine

open Call (Targets)
open FileTree (Entry Path)
open Json (Value)
open Untranslated.Configuration (ConfigError Configures CountsWorkers Environment FromEnvironment
  IsBare IsFilled ListsPaths ListsSuffixes ListsTexts NamesTargets Overrides Refused Settings
  SpellsWorkers Updated load load_eq_ok load_refused workersVariable)

/-- Each setting comes from the first layer that has it: its flag, its variable, its entry in the
file. Three of them have an entry alone. -/
structure Layered (members : List (Text × Value)) (environment : Environment)
    (arguments : Arguments) (settings : Settings) : Prop where
  baseLocale : ∃ entry, Option.Rel IsFilled (Value.lookup? members "locale") entry ∧
    settings.baseLocale = arguments.baseLocale.getD
      ((environment.lookup? "LIT_BASE_LOCALE").getD (entry.getD "en"))
  paths : ∃ own entry, Option.Rel ListsPaths (environment.lookup? "LIT_PATHS") own ∧
    Option.Rel ListsTexts (Value.lookup? members "paths") entry ∧
    settings.paths = arguments.paths.getD (own.getD (entry.getD ["resources/views", "app"]))
  languagePath : ∃ entry, Option.Rel IsBare (Value.lookup? members "lang_path") entry ∧
    settings.languagePath =
      arguments.languagePath.or ((environment.lookup? "LIT_LANG_PATH").or entry)
  suffixes : ∃ entry, Option.Rel ListsSuffixes (Value.lookup? members "extensions") entry ∧
    settings.suffixes = entry.getD ["php"]
  workers : ∃ own entry, Option.Rel SpellsWorkers (environment.lookup? workersVariable) own ∧
    Option.Rel CountsWorkers (Value.lookup? members "max_workers") entry ∧
    settings.workers = arguments.jobs.or (own.or entry)
  directives : ∃ entry, Option.Rel ListsTexts (Value.lookup? members "blade_directives") entry ∧
    settings.directives = entry.getD []
  targets : ∃ entry, Option.Rel NamesTargets (Value.lookup? members "detect") entry ∧
    settings.targets = entry.getD .default

section

variable {tree : Entry} {environment : Environment} {arguments : Arguments}
  {members : List (Text × Value)} {settings : Settings}

/-- The layers one after the other are the layers of each setting on its own. -/
theorem layered_iff :
    Layered members environment arguments settings ↔
      ∃ file overrides, Updated members .default file ∧ FromEnvironment environment overrides ∧
        settings = (file.override overrides).override (overridesOf arguments) := by
  constructor
  · rintro ⟨⟨locale, isLocale, sameLocale⟩, ⟨own, paths, areOwn, arePaths, samePaths⟩,
      ⟨path, isPath, samePath⟩, ⟨suffixes, areSuffixes, sameSuffixes⟩,
      ⟨ownWorkers, workers, areOwnWorkers, areWorkers, sameWorkers⟩,
      ⟨directives, areDirectives, sameDirectives⟩, ⟨targets, areTargets, sameTargets⟩⟩
    refine ⟨⟨locale.getD "en", paths.getD ["resources/views", "app"], path, suffixes.getD ["php"],
      workers, directives.getD [], targets.getD .default⟩,
      ⟨environment.lookup? "LIT_BASE_LOCALE", own, environment.lookup? "LIT_LANG_PATH", none,
        ownWorkers, none⟩, ?_, ⟨rfl, areOwn, rfl, rfl, areOwnWorkers, rfl⟩, ?_⟩
    · exact ⟨⟨locale, isLocale, rfl⟩, ⟨paths, arePaths, rfl⟩,
        ⟨path, isPath, by simp [Settings.default]⟩, ⟨suffixes, areSuffixes, rfl⟩,
        ⟨workers, areWorkers, by simp [Settings.default]⟩,
        ⟨directives, areDirectives, rfl⟩, ⟨targets, areTargets, rfl⟩⟩
    · obtain ⟨_, _, _, _, _, _, _⟩ := settings
      dsimp only at sameLocale samePaths samePath sameSuffixes
      dsimp only at sameWorkers sameDirectives sameTargets
      subst sameLocale samePaths samePath sameSuffixes sameWorkers sameDirectives sameTargets
      simp [Settings.override, overridesOf]
  · rintro ⟨file, overrides, updated, own, rfl⟩
    obtain ⟨⟨locale, isLocale, sameLocale⟩, ⟨paths, arePaths, samePaths⟩, ⟨path, isPath, samePath⟩,
      ⟨suffixes, areSuffixes, sameSuffixes⟩, ⟨workers, areWorkers, sameWorkers⟩,
      ⟨directives, areDirectives, sameDirectives⟩, ⟨targets, areTargets, sameTargets⟩⟩ := updated
    obtain ⟨ownLocale, areOwn, ownPath, noSuffixes, areOwnWorkers, noDirectives⟩ := own
    refine ⟨⟨locale, isLocale, ?_⟩, ⟨overrides.paths, paths, areOwn, arePaths, ?_⟩,
      ⟨path, isPath, ?_⟩, ⟨suffixes, areSuffixes, ?_⟩,
      ⟨overrides.workers, workers, areOwnWorkers, areWorkers, ?_⟩,
      ⟨directives, areDirectives, ?_⟩, ⟨targets, areTargets, sameTargets⟩⟩
    · simp [Settings.override, overridesOf, sameLocale, ownLocale, Settings.default]
    · simp [Settings.override, overridesOf, samePaths, Settings.default]
    · simp [Settings.override, overridesOf, samePath, ownPath, Settings.default]
    · simp [Settings.override, overridesOf, sameSuffixes, noSuffixes, Settings.default]
    · simp [Settings.override, overridesOf, sameWorkers, Settings.default]
    · simp [Settings.override, overridesOf, sameDirectives, noDirectives, Settings.default]

/-- Settings are those of the file and the environment, with the flags before them. -/
theorem settingsOf_eq_ok :
    settingsOf tree environment arguments = .ok settings ↔
      ∃ own, load tree arguments.configuration environment (Path.ofText []) = .ok own ∧
        (∀ jobs ∈ arguments.jobs, 1 ≤ jobs) ∧ settings = own.override (overridesOf arguments) := by
  have enough : ¬ arguments.jobs.any (· < 1) = true ↔ ∀ jobs ∈ arguments.jobs, 1 ≤ jobs := by
    cases arguments.jobs <;> simp
  rw [settingsOf, bind_eq_ok]
  refine exists_congr fun own => and_congr_right fun _ => ?_
  rw [← enough]
  by_cases few : arguments.jobs.any (· < 1) = true
  · rw [if_pos few]
    simp [few, throw, throwThe, MonadExceptOf.throw, bind, Except.bind]
  · rw [if_neg few]
    simp [few, pure, Except.pure, eq_comm]

/-- There are settings exactly if all entries, all variables and the number of jobs are right, and
then each comes from the first of its layers. An entry or a variable that is refused is an error
whatever the later layers say, and so is all else that is wrong with the file. -/
theorem settingsOf_layers (tree : Entry) (environment : Environment) (arguments : Arguments) :
    (∀ settings, settingsOf tree environment arguments = .ok settings ↔
      ∃ members, Configures tree arguments.configuration (Path.ofText []) members ∧
        (∀ jobs ∈ arguments.jobs, 1 ≤ jobs) ∧ Layered members environment arguments settings) ∧
    (∀ e, load tree arguments.configuration environment (Path.ofText []) = .error e →
      settingsOf tree environment arguments = .error e) ∧
    ∀ members, Configures tree arguments.configuration (Path.ofText []) members →
      Refused members environment → ∃ e, settingsOf tree environment arguments = .error e := by
  have unmasked (e : ConfigError)
      (failed : load tree arguments.configuration environment (Path.ofText []) = .error e) :
      settingsOf tree environment arguments = .error e := by
    rw [settingsOf, failed]
    rfl
  refine ⟨fun settings => ?_, unmasked, fun members holds refused => ?_⟩
  · simp only [settingsOf_eq_ok, load_eq_ok, layered_iff]
    constructor
    · rintro ⟨_, ⟨members, file, overrides, holds, updated, own, rfl⟩, enough, rfl⟩
      exact ⟨members, holds, enough, file, overrides, updated, own, rfl⟩
    · rintro ⟨members, holds, enough, file, overrides, updated, own, rfl⟩
      exact ⟨_, ⟨members, file, overrides, holds, updated, own, rfl⟩, enough, rfl⟩
  · obtain ⟨e, failed⟩ := load_refused holds refused
    exact ⟨e, unmasked e failed⟩

end

/-- The file has an entry for most settings. -/
def layeredTree : Entry :=
  .directory [("lost-in-translation.json", .file (Utf8.encode
    ("\x7b\"locale\": \"de\", \"paths\": \"src\", \"lang_path\": 5, ".toList ++
      "\"extensions\": [\"*.php\"], \"max_workers\": 2\x7d".toList)))]

/-- The first variable is empty, and one of the paths is, too. -/
def layeredEnvironment : Environment :=
  [("LIT_BASE_LOCALE", ""), ("LIT_PATHS", "a::b"), ("LIT_MAX_WORKERS", "4")]

/-- A locale alone. -/
def plainArguments : Arguments := ⟨"fr", false, 0, false, none, none, none, none, none, false⟩

theorem settingsOf_layers_mixed :
    (∃ members settings, settingsOf layeredTree layeredEnvironment
        { plainArguments with jobs := some 3 } = .ok settings ∧
      Layered members layeredEnvironment { plainArguments with jobs := some 3 } settings ∧
      settings.baseLocale = Text.ofString "de" ∧ settings.paths = ["a", "b"].map Text.ofString ∧
      settings.languagePath = some (Text.ofString "5") ∧
      settings.suffixes = [Text.ofString ".php"] ∧ settings.workers = some 3) ∧
    ∃ e, settingsOf layeredTree [("LIT_MAX_WORKERS", "none")]
      { plainArguments with jobs := some 3 } = .error e := by
  have reads : (settingsOf layeredTree layeredEnvironment
      { plainArguments with jobs := some 3 }).toOption.map (fun settings => decide
        (settings.baseLocale = Text.ofString "de" ∧ settings.paths = ["a", "b"].map Text.ofString ∧
          settings.languagePath = some (Text.ofString "5") ∧
          settings.suffixes = [Text.ofString ".php"] ∧ settings.workers = some 3)) =
      some true := by
    decide +kernel
  obtain ⟨settings, told, values⟩ := ok_of_toOption reads
  obtain ⟨members, holds, -, layered⟩ := (settingsOf_layers _ _ _).1 settings |>.mp told
  refine ⟨⟨members, settings, told, layered, of_decide_eq_true values⟩, ?_⟩
  have found : Environment.lookup? [("LIT_MAX_WORKERS", "none")] workersVariable =
      some (Text.ofString "none") := by decide +kernel
  refine (settingsOf_layers _ _ _).2.2 members holds (.variableWorkers found ?_)
  rintro n ⟨spelled, -⟩
  have noInteger : Text.integer? (Text.ofString "none") = none := by decide +kernel
  rw [noInteger] at spelled
  cases spelled

end Untranslated.CommandLine
