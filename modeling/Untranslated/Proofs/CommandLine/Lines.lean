/-
This file proves what the lines that a run prints tell about the missing keys.
A key with a newline is printed as several lines.
-/

import Untranslated.CommandLine.Run
import Untranslated.Proofs.Scan.Report
import Untranslated.Proofs.Text.Order
import Untranslated.Proofs.Text.Splitting

namespace Untranslated.CommandLine

open Catalog (KeyCatalog)
open FileTree (Entry Path)
open Scan (Finder ScanError ScanResult Source inquire_answered)
open Untranslated.Configuration (Environment Settings)

def newline : CodePoint := .ofChar '\n'

/-- Every key is printed with a newline behind it. -/
def printed (keys : List Text) : Text := keys.flatMap (· ++ [newline])

/-- The lines of an output, of which the last one ends as well. Empty output has no line. -/
def readBack (output : Text) : List Text :=
  if output = [] then [] else Text.splitAtChar '\n' output.dropLast

/-- The printed keys are split into their own lines. -/
theorem splitAtChar_printed (front : List Text) (last : Text) :
    Text.splitAtChar '\n' (printed front ++ last) =
      front.flatMap (Text.splitAtChar '\n') ++ Text.splitAtChar '\n' last := by
  induction front with
  | nil => rfl
  | cons first front inductionHypothesis =>
      have cut := Text.splitAtChar_append '\n' first (printed front ++ last)
      simp only [printed, List.flatMap_cons, List.append_assoc, List.singleton_append]
      exact cut.trans (congrArg _ inductionHypothesis)

/-- Reading back finds the lines of every key. -/
theorem readBack_printed (keys : List Text) :
    readBack (printed keys) = keys.flatMap (Text.splitAtChar '\n') := by
  induction keys using List.reverseRecOn with
  | nil => rfl
  | append_singleton front last _ =>
      have shape : printed (front ++ [last]) = (printed front ++ last) ++ [newline] := by
        simp [printed]
      rw [shape, readBack, if_neg (by simp), List.dropLast_concat, splitAtChar_printed]
      simp

/-- Keys are their own lines just when none of them has a newline. -/
theorem flatMap_splitAtChar_iff (keys : List Text) :
    keys.flatMap (Text.splitAtChar '\n') = keys ↔ ∀ key ∈ keys, newline ∉ key := by
  constructor
  · intro same key member inside
    rw [← same] at member
    obtain ⟨other, -, piece⟩ := List.mem_flatMap.mp member
    have kept := Text.mem_splitWhere piece newline inside
    simp [newline] at kept
  · intro whole
    calc keys.flatMap (Text.splitAtChar '\n')
        = keys.flatMap fun key => [key] :=
          List.flatMap_congr fun key member => Text.splitAtChar_single (whole key member)
      _ = keys := List.flatMap_singleton' keys

/-- The catalog of a project before any question. -/
def catalogOf (tree : Entry) (settings : Settings) : KeyCatalog :=
  .ofDirectory (Catalog.languageDirectory tree (Path.ofText []) settings.languagePath)

/-- The finder that a run sets up. -/
def finderOf (tree : Entry) (arguments : Arguments) (settings : Settings) : Finder :=
  .new (catalogOf tree settings) arguments.locale settings.targets settings.workers
    settings.directives

/-- The files that a run scans. -/
def sourcesOf (tree : Entry) (settings : Settings) : List Source :=
  (FileTree.list tree (settings.paths.map Path.ofText) settings.suffixes).paths.map .onDisk

/-- The missing keys are the reported ones that the locale does not have. They stand in the order of
the report. -/
def missingKeys? (tree : Entry) (environment : Environment) (arguments : Arguments) :
    Option (List Text) := do
  let settings ← (settingsOf tree environment arguments).toOption
  let held ← ((catalogOf tree settings).keys tree arguments.locale).result.toOption
  let finder := finderOf tree arguments settings
  let result ← (finder.collect tree (sourcesOf tree settings)).result.toOption
  return (if arguments.sorted then Text.sort result.reported else result.reported).filter
    (!held.contains ·)

/-- A scan with a catalog that has loaded the locale finds the reported keys without the held
ones. -/
theorem scan_ordered {tree : Entry} {catalog : KeyCatalog} (finder : Finder) {held : List Text}
    (loaded : (catalog.keys tree finder.locale).result = .ok held) (sources : List Source)
    (sorted : Bool) {result : ScanResult}
    (scanned : ({ finder with catalog := .keys catalog }.scan tree sources sorted).result =
      .ok result) :
    ∃ collected, (finder.collect tree sources).result = .ok collected ∧
      result.ordered sorted =
        (if sorted then Text.sort collected.reported else collected.reported).filter
          (!held.contains ·) := by
  unfold Finder.scan Finder.collect at scanned
  unfold Finder.collect
  rw [show ({ finder with catalog := .keys catalog } : Finder).scanFiles tree sources =
    finder.scanFiles tree sources from rfl] at scanned
  cases outcome : (finder.scanFiles tree sources).result with
  | error e => simp [Finder.fold, outcome, Scan.Run.lookUp] at scanned
  | ok scans =>
      refine ⟨Scan.aggregate scans, by simp [Finder.fold, outcome], ?_⟩
      have answered (key : Text) :
          ((Catalog.LocaleCatalog.keys catalog).has tree key finder.locale).result =
            .ok (held.contains key) := KeyCatalog.has_ok loaded key
      generalize asked : (if sorted then Text.sort (Scan.aggregate scans).reported
        else (Scan.aggregate scans).reported) = keys
      have inquiry := inquire_answered keys.length keys 1 (.keys catalog) answered
      simp only [Finder.fold, outcome, Scan.Run.lookUp, asked, inquiry.missing,
        Except.ok.injEq] at scanned
      subst scanned
      cases sorted with
      | false => rfl
      | true =>
          simp only [if_true] at asked
          subst asked
          exact List.mergeSort_of_pairwise ((Text.sort_pairwise _).filter _)

section

variable {tree : Entry} {environment : Environment} {isTerminal : Bool} {argv : List Text}
  {arguments : Arguments} {output diagnostics : Text}

/-- A run that ends well prints the missing keys. -/
theorem find_prints {settings : Settings} {display : Display} (plain : arguments.json = false)
    (configured : settingsOf tree environment arguments = .ok settings)
    (finished : find tree arguments settings display = .finished 0 output diagnostics) :
    ∃ keys, missingKeys? tree environment arguments = some keys ∧ output = printed keys := by
  cases loaded : ((catalogOf tree settings).keys tree arguments.locale).result with
  | error e =>
      rw [catalogOf] at loaded
      simp only [find, loaded, failed] at finished
      split at finished <;> cases finished
  | ok held =>
      have again := KeyCatalog.keys_again loaded
      rw [catalogOf] at loaded again
      simp only [find, loaded] at finished
      split at finished
      · cases finished
      · split at finished
        · simp only [failed] at finished
          split at finished <;> cases finished
        · next result scanned =>
          obtain ⟨collected, done, ordered⟩ :=
            scan_ordered (finderOf tree arguments settings) again
              (sourcesOf tree settings) arguments.sorted scanned
          refine ⟨result.ordered arguments.sorted, ?_, ?_⟩
          · rw [ordered]
            simp [missingKeys?, configured, catalogOf, loaded, done, Except.toOption]
          · rw [outputOf, plain] at finished
            cases finished
            rfl

/-- A run that ends well prints the keys that it finds missing. -/
theorem run_prints (read : readArguments argv = .ok arguments) (plain : arguments.json = false)
    (finished : run tree environment isTerminal argv = .finished 0 output diagnostics) :
    ∃ keys, missingKeys? tree environment arguments = some keys ∧ output = printed keys := by
  unfold run at finished
  rw [read] at finished
  cases configured : settingsOf tree environment arguments with
  | error e =>
      simp only [configured, failed] at finished
      split at finished <;> cases finished
  | ok settings =>
      simp only [configured] at finished
      split at finished
      · cases finished
      · exact find_prints plain configured finished

/-- Every key of a run is printed on lines of its own. The missing keys can be read back just when
none of them has a newline, and then no other such keys are printed alike. -/
theorem run_readBack (read : readArguments argv = .ok arguments) (plain : arguments.json = false)
    (finished : run tree environment isTerminal argv = .finished 0 output diagnostics) :
    ∃ keys, missingKeys? tree environment arguments = some keys ∧
      output = printed keys ∧
      readBack output = keys.flatMap (Text.splitAtChar '\n') ∧
      (readBack output = keys ↔ ∀ key ∈ keys, newline ∉ key) ∧
      ((∀ key ∈ keys, newline ∉ key) → ∀ others, (∀ key ∈ others, newline ∉ key) →
        printed others = output → others = keys) := by
  obtain ⟨keys, misses, rfl⟩ := run_prints read plain finished
  refine ⟨keys, misses, rfl, readBack_printed keys, ?_, fun whole others wholeOthers alike => ?_⟩
  · rw [readBack_printed]
    exact flatMap_splitAtChar_iff keys
  · calc others
        = readBack (printed others) := by
          rw [readBack_printed, (flatMap_splitAtChar_iff others).mpr wholeOthers]
      _ = readBack (printed keys) := congrArg readBack alike
      _ = keys := by rw [readBack_printed, (flatMap_splitAtChar_iff keys).mpr whole]

end

/-- A project with one file of code and an empty French catalog. -/
def projectOf (code : String) : Entry := .directory [
  ("app", .directory [("a.php", .file (Utf8.encode code.toList))]),
  ("lang", .directory [("fr.json", .file (Utf8.encode "\x7b\x7d".toList))])]

/-- The arguments of a run for the French locale. -/
def frenchArguments : Arguments := ⟨"fr", false, 0, false, none, none, none, none, none, false⟩

/-- What a run prints if it ends well. -/
def Ending.output? : Ending → Option Text
  | .finished 0 output _ => some output
  | _ => none

/-- A run prints an output only if it ends well. -/
theorem Ending.finished_of_output? {ending : Ending} {output : Text}
    (told : ending.output? = some output) :
    ∃ diagnostics, ending = .finished 0 output diagnostics := by
  unfold Ending.output? at told
  split at told
  · cases told
    exact ⟨_, rfl⟩
  · cases told

/-- Both keys of the file are printed in the order of the file and read back. -/
theorem run_readBack_twoKeys : ∃ keys output diagnostics,
    readArguments ["fr"] = .ok frenchArguments ∧ frenchArguments.json = false ∧
      run (projectOf "<?php __('b'); __('a');") [] false ["fr"] = .finished 0 output diagnostics ∧
      missingKeys? (projectOf "<?php __('b'); __('a');") [] frenchArguments = some keys ∧
      keys = [Text.ofString "b", Text.ofString "a"] ∧ readBack output = keys := by
  have read : readArguments ["fr"] = .ok frenchArguments := by rfl
  have found : missingKeys? (projectOf "<?php __('b'); __('a');") [] frenchArguments =
      some [Text.ofString "b", Text.ofString "a"] := by decide +kernel
  have ended : (run (projectOf "<?php __('b'); __('a');") [] false ["fr"]).output? =
      some (Text.ofString "b\na\n") := by decide +kernel
  obtain ⟨diagnostics, finished⟩ := Ending.finished_of_output? ended
  obtain ⟨keys, missing, -, -, whole, -⟩ := run_readBack read rfl finished
  obtain rfl := Option.some.inj (found.symm.trans missing)
  exact ⟨_, _, diagnostics, read, rfl, finished, found, rfl, whole.mpr (by decide)⟩

/-- A key of two lines is printed as two keys are. -/
theorem run_readBack_twoLines : ∃ keys others output,
    missingKeys? (projectOf "<?php __(\"b\\na\");") [] frenchArguments = some keys ∧
      missingKeys? (projectOf "<?php __('b'); __('a');") [] frenchArguments = some others ∧
      (run (projectOf "<?php __(\"b\\na\");") [] false ["fr"]).output? = some output ∧
      (run (projectOf "<?php __('b'); __('a');") [] false ["fr"]).output? = some output ∧
      readBack output ≠ keys ∧ keys ≠ others := by
  refine ⟨[Text.ofString "b\na"], [Text.ofString "b", Text.ofString "a"], Text.ofString "b\na\n",
    ?_, ?_, ?_, ?_, ?_, ?_⟩
  all_goals decide +kernel

end Untranslated.CommandLine
