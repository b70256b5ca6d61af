/-
This file finds the keys that a locale lacks.
All files are scanned first. Then the catalog is asked once for every key.
-/

import Untranslated.Scan.Schedule

namespace Untranslated.Scan

open Call (Targets)
open Catalog (LoadError LocaleCatalog)
open FileTree (Entry)

/-- A finder lives through several runs. Without a number of workers it has several. -/
structure Finder where
  catalog : LocaleCatalog
  locale : Text
  targets : Targets
  workers : Option Int
  directives : List Text
  phase : Phase

def Finder.new (catalog : LocaleCatalog) (locale : Text) (targets : Targets) (workers : Option Int)
    (directives : List Text) : Finder :=
  ⟨catalog, locale, targets, workers, directives, .pending⟩

def Finder.isParallel (finder : Finder) : Bool :=
  match finder.workers with
  | none => true
  | some count => 1 < count

/-- The reported keys stand in the order of their first calls. The missing ones are among them. -/
structure ScanResult where
  reported : List Text
  missing : List Text
  warnings : List Warning
  filesScanned : Nat

def ScanResult.ordered (sorted : Bool) (result : ScanResult) : List Text :=
  if sorted then Text.sort result.missing else result.missing

/-- The outcome of a run, and the finder after it. -/
structure Run where
  finder : Finder
  events : List Event
  result : Except ScanError ScanResult

/-- The scans of several files together. -/
def aggregate (scans : List FileScan) : ScanResult where
  reported := Text.unique (scans.flatMap (·.keys))
  missing := []
  warnings := scans.flatMap (·.warnings)
  filesScanned := scans.length

/-- Every source is a job of its own. -/
def Finder.jobs (tree : Entry) (sources : List Source) (finder : Finder) : List Job :=
  sources.map (scanSource tree finder.targets finder.directives)

/-- A single source needs one worker only. -/
def Finder.runsAtOnce (sources : List Source) (finder : Finder) : Bool :=
  finder.isParallel && 1 < sources.length

def Finder.scanFiles (tree : Entry) (sources : List Source) (finder : Finder) :
    Outcome (List FileScan) :=
  let jobs := finder.jobs tree sources
  if finder.runsAtOnce sources then runAtOnce jobs else runInOrder jobs.length 1 jobs

/-- The run that the scans lead to. Their keys and warnings are put together if no scan failed. -/
def Finder.fold (outcome : Outcome (List FileScan)) (finder : Finder) : Run :=
  match outcome.result with
  | .error e => ⟨{ finder with phase := .scanning }, outcome.events, .error e⟩
  | .ok scans =>
    let result := aggregate scans
    ⟨{ finder with phase := .aggregating }, outcome.events ++ result.warnings.map .warning,
      .ok result⟩

/-- The keys and the warnings of the sources. The catalog is not asked. -/
def Finder.collect (tree : Entry) (sources : List Source) (finder : Finder) : Run :=
  finder.fold (finder.scanFiles tree sources)

/-- What the catalog says about keys: the missing ones among them, unless it fails. -/
structure Inquiry where
  catalog : LocaleCatalog
  events : List Event
  result : Except LoadError (List Text)

/-- Progress is told after every answer. -/
def inquire (tree : Entry) (locale : Text) (total current : Nat) (catalog : LocaleCatalog) :
    List Text → Inquiry
  | [] => ⟨catalog, [], .ok []⟩
  | key :: rest =>
    let answer := catalog.has tree key locale
    let told := .question key :: answer.records.map Event.record
    match answer.result with
    | .error e => ⟨answer.catalog, told, .error e⟩
    | .ok present =>
      let later := inquire tree locale total (current + 1) answer.catalog rest
      ⟨later.catalog,
        told ++ .progress ⟨.aggregating, current, total, none⟩ :: later.events,
        later.result.map fun missing => if present then missing else key :: missing⟩

def ScanResult.record (locale : Text) (result : ScanResult) : Record :=
  ⟨.info, "missing_key_finder",
    "Scanned " ++ Text.ofNat result.filesScanned ++ " file(s): " ++
      Text.ofNat result.reported.length ++ " key(s) reported, " ++
      Text.ofNat result.missing.length ++ " missing for " ++ locale ++ ", " ++
      Text.ofNat result.warnings.length ++ " warning(s)"⟩

/-- The keys of a run are looked up in the catalog, perhaps in sorted order. -/
def Run.lookUp (tree : Entry) (sorted : Bool) (run : Run) : Run :=
  match run.result with
  | .error _ => run
  | .ok result =>
    let keys := if sorted then Text.sort result.reported else result.reported
    let inquiry := inquire tree run.finder.locale keys.length 1 run.finder.catalog keys
    let asked := { run.finder with catalog := inquiry.catalog }
    let events := run.events ++ inquiry.events
    match inquiry.result with
    | .error e => ⟨asked, events, .error (.catalog e)⟩
    | .ok missing =>
      let result := { result with missing }
      ⟨{ asked with phase := .done }, events ++ [.record (result.record run.finder.locale)],
        .ok result⟩

/-- The keys of the sources and those of them that the locale lacks. -/
def Finder.scan (tree : Entry) (sources : List Source) (sorted : Bool) (finder : Finder) : Run :=
  (finder.collect tree sources).lookUp tree sorted

/-- The keys that a locale lacks, in the order of the report. -/
def missingKeys (tree : Entry) (sources : List Source) (sorted : Bool) (finder : Finder) :
    Except ScanError (List Text) :=
  (finder.scan tree sources sorted).result.map (·.ordered sorted)

end Untranslated.Scan
