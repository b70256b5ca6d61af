/-
This file proves that a finder carries nothing from one run to the next, and that its phase and its
progress tell how far each run got.
-/

import Untranslated.Proofs.Catalog.Steady
import Untranslated.Proofs.Scan.Report

namespace Untranslated.Scan

open Call (Targets)
open Catalog (LoadError LocaleCatalog Question)
open FileTree (Entry Path)

/-- The progress that an event tells. -/
def Event.progress? : Event → Option Progress
  | .progress told => some told
  | _ => none

/-- What is told of the progress. -/
abbrev progressOf (events : List Event) : List Progress := picked Event.progress? events

/-- Two rows of events tell their progress one after the other. -/
theorem progressOf_append (first second : List Event) :
    progressOf (first ++ second) = progressOf first ++ progressOf second :=
  picked_append first second

/-- A record of the log. -/
def Event.isRecord : Event → Bool
  | .record _ => true
  | _ => false

/-- The events without the records. A catalog that loads its keys once writes its record once. -/
def told (events : List Event) : List Event := events.filter (!·.isRecord)

@[simp] theorem told_append (first second : List Event) :
    told (first ++ second) = told first ++ told second :=
  List.filter_append first second

/-- Events of a phase, numbered from the current one on, one for each path. -/
def counted (phase : Phase) (total current : Nat) : List (Option Text) → List Progress
  | [] => []
  | path :: rest => ⟨phase, current, total, path⟩ :: counted phase total (current + 1) rest

/-- Records tell no progress. -/
theorem progressOf_told (events : List Event) : progressOf (told events) = progressOf events := by
  induction events with
  | nil => rfl
  | cons event rest inductionHypothesis =>
      cases event with
      | record record => exact inductionHypothesis
      | progress progress => exact congrArg (progress :: ·) inductionHypothesis
      | warning warning => exact inductionHypothesis
      | question key => exact inductionHypothesis

theorem map_nil_append {A E : Type} (result : Except E (List A)) :
    result.map ([] ++ ·) = result := by
  cases result <;> rfl

theorem told_records (records : List Record) : told (records.map .record) = [] := by
  simp [told, Event.isRecord]

/-- The path of a source. -/
def Source.path : Source → Path
  | .given file => file.path
  | .onDisk path => path

/-- The path that the progress of a scan names. -/
def scanPath (scan : FileScan) : Option Text := some scan.path

/-- The path that the progress of a source names. -/
def sourcePath (source : Source) : Option Text := some source.path.text

/-- A file that is read keeps the path of its source. -/
theorem readSource_path {tree : Entry} {source : Source} {file : SourceFile}
    (read : readSource tree source = .ok file) : file.path = source.path := by
  cases source with
  | given own =>
      obtain rfl : own = file := by simpa [readSource] using read
      rfl
  | onDisk path =>
      simp only [readSource] at read
      split at read
      · obtain rfl := Except.ok.inj read
        rfl
      · cases read

/-- A scan has the path of its file. -/
theorem scanSource_path {tree : Entry} {targets : Targets} {directives : List Text}
    {source : Source} {scan : FileScan}
    (scanned : scanSource tree targets directives source = .ok scan) :
    scan.path = source.path.text := by
  cases read : readSource tree source with
  | error e => simp [scanSource, read, bind, Except.bind] at scanned
  | ok file =>
  cases parsed : parseFile directives file with
  | error e => simp [scanSource, scanFile, read, parsed, bind, Except.bind] at scanned
  | ok program =>
      have calls := scanProgram_callsIn file.path.text program targets
      simp only [scanSource, scanFile, read, parsed, bind, Except.bind] at scanned
      cases found : scanProgram file.path.text program targets with
      | error e => simp [found, Except.mapError] at scanned
      | ok own =>
          obtain rfl : own = scan := by simpa [found, Except.mapError] using scanned
          cases told : callsIn targets file.path.text program with
          | error e => simp [found, told, Except.toOption] at calls
          | ok calls' =>
              obtain rfl : own = FileScan.ofCalls file.path.text calls' := by
                simpa [found, told, Except.toOption] using calls
              exact congrArg Path.text (readSource_path read)

/-- The files that are scanned are told with their paths. -/
theorem Finder.jobs_paths {tree : Entry} {sources : List Source} {finder : Finder}
    {scans : List FileScan} (done : finder.jobs tree sources = scans.map .ok) :
    scans.map scanPath = sources.map sourcePath := by
  induction sources generalizing scans with
  | nil =>
      obtain rfl : scans = [] := by simpa [Finder.jobs, eq_comm] using done
      rfl
  | cons source rest inductionHypothesis =>
      cases scans with
      | nil => simp [Finder.jobs] at done
      | cons scan scans =>
          obtain ⟨first, others⟩ := List.cons.inj done
          rw [List.map_cons, List.map_cons, inductionHypothesis others, scanPath, sourcePath,
            scanSource_path first]

/-- Files are scanned in order, and told one by one. -/
theorem runInOrder_append (total current : Nat) (scans : List FileScan) (jobs : List Job) :
    progressOf (runInOrder total current (scans.map .ok ++ jobs)).events =
        counted .scanning total current (scans.map scanPath) ++
          progressOf (runInOrder total (current + scans.length) jobs).events ∧
      (runInOrder total current (scans.map .ok ++ jobs)).result =
        (runInOrder total (current + scans.length) jobs).result.map (scans ++ ·) := by
  induction scans generalizing current with
  | nil => exact ⟨rfl, (map_nil_append _).symm⟩
  | cons scan rest inductionHypothesis =>
      obtain ⟨events, result⟩ := inductionHypothesis (current + 1)
      rw [Nat.add_right_comm, Nat.add_assoc] at events result
      constructor
      · exact congrArg (⟨.scanning, current, total, scanPath scan⟩ :: ·) events
      · rw [List.map_cons, List.cons_append, runInOrder, result]
        cases (runInOrder total (current + (scan :: rest).length) jobs).result <;> rfl

/-- Either all files are scanned, or one fails after some that are. -/
theorem Finder.jobs_cases (tree : Entry) (sources : List Source) (finder : Finder) :
    (∃ scans : List FileScan, finder.jobs tree sources = scans.map .ok) ∨
      ∃ before source after e, ∃ scans : List FileScan, sources = before ++ source :: after ∧
        finder.jobs tree before = scans.map .ok ∧
        scanSource tree finder.targets finder.directives source = .error e := by
  induction sources with
  | nil => exact .inl ⟨[], rfl⟩
  | cons source rest inductionHypothesis =>
      cases first : scanSource tree finder.targets finder.directives source with
      | error e => exact .inr ⟨[], source, rest, e, [], rfl, rfl, first⟩
      | ok scan =>
          have more {sources : List Source} {scans : List FileScan}
              (done : finder.jobs tree sources = scans.map .ok) :
              finder.jobs tree (source :: sources) = (scan :: scans).map .ok :=
            congr (congrArg List.cons first) done
          rcases inductionHypothesis with
            ⟨scans, done⟩ | ⟨before, failing, after, e, scans, rfl, done, failed⟩
          · exact .inl ⟨scan :: scans, more done⟩
          · exact .inr ⟨source :: before, failing, after, e, scan :: scans, rfl, more done, failed⟩

section

variable {trees : List Entry} {answers : Text → Text → Except LoadError Bool} (tree : Entry)
  {locale : Text}

/-- Of a look-up the question is told. -/
theorem has_told (catalog : LocaleCatalog) (key : Text) :
    told (.question key :: (catalog.has tree key locale).records.map Event.record) =
      [.question key] := by
  rw [← List.singleton_append, told_append, told_records]
  rfl

/-- Catalogs that answer alike come to the same, and the same is told. -/
theorem inquire_answers (total : Nat) (keys : List Text) (current : Nat) {catalog : LocaleCatalog}
    (steady : catalog.AnswersBy trees answers) (known : tree ∈ trees) :
    let own := inquire tree locale total current catalog keys
    let plain := inquire tree locale total current (.other answers) keys
    own.result = plain.result ∧ told own.events = told plain.events := by
  induction keys generalizing current catalog with
  | nil => exact ⟨rfl, rfl⟩
  | cons key rest inductionHypothesis =>
      have answer := steady.has known key locale
      obtain ⟨result, events⟩ :=
        inductionHypothesis (current + 1) (steady.next known key locale)
      have plain : ((LocaleCatalog.other answers).has tree key locale).result =
        answers key locale := rfl
      cases found : answers key locale with
      | error e =>
          simp only [inquire, answer, plain, found, true_and]
          exact (has_told tree catalog key).trans (has_told tree (.other answers) key).symm
      | ok present =>
          simp only [inquire, answer, plain, found]
          refine ⟨congrArg (Except.map _) result, ?_⟩
          rw [told_append, told_append, has_told, has_told]
          exact congrArg (fun later => [.question key] ++
            .progress ⟨.aggregating, current, total, none⟩ :: later) events

/-- Keys that are answered are told one by one, and those that are not present are missing. -/
theorem inquire_append (total current : Nat) {before : List Text} {present : Text → Bool}
    (answered : ∀ key ∈ before, answers key locale = .ok (present key)) (keys : List Text) :
    let later := inquire tree locale total (current + before.length) (.other answers) keys
    let whole := inquire tree locale total current (.other answers) (before ++ keys)
    progressOf whole.events =
        counted .aggregating total current (before.map fun _ => none) ++ progressOf later.events ∧
      whole.result = later.result.map (before.filter (!present ·) ++ ·) := by
  induction before generalizing current with
  | nil => exact ⟨rfl, (map_nil_append _).symm⟩
  | cons key rest inductionHypothesis =>
      obtain ⟨first, others⟩ := List.forall_mem_cons.mp answered
      obtain ⟨events, result⟩ := inductionHypothesis (current + 1) others
      rw [Nat.add_right_comm, Nat.add_assoc] at events result
      have answer : ((LocaleCatalog.other answers).has tree key locale).result =
        .ok (present key) := first
      simp only [List.cons_append, inquire, answer]
      constructor
      · exact congrArg (⟨.aggregating, current, total, none⟩ :: ·) events
      · refine (congrArg (Except.map _) result).trans ?_
        cases missing : (inquire tree locale total (current + (key :: rest).length)
            (.other answers) keys).result with
        | error e => rfl
        | ok missing => cases holds : present key <;> simp [Except.map, holds]

/-- Either all keys are answered, or one is not after some that are. -/
theorem answers_cases (answers : Text → Except LoadError Bool) (keys : List Text) :
    ∃ present : Text → Bool, (∀ key ∈ keys, answers key = .ok (present key)) ∨
      ∃ before key after e, keys = before ++ key :: after ∧
        (∀ key ∈ before, answers key = .ok (present key)) ∧ answers key = .error e := by
  refine ⟨fun key => (answers key).toOption.getD false, ?_⟩
  have ok {key : Text} {present : Bool} (found : answers key = .ok present) :
      answers key = .ok ((answers key).toOption.getD false) := by
    simp [found, Except.toOption]
  induction keys with
  | nil => exact .inl (by simp)
  | cons key rest inductionHypothesis =>
      cases found : answers key with
      | error e => exact .inr ⟨[], key, rest, e, rfl, by simp, found⟩
      | ok present =>
          rcases inductionHypothesis with all | ⟨before, failing, after, e, rfl, all, failed⟩
          · exact .inl (List.forall_mem_cons.mpr ⟨ok found, all⟩)
          · exact .inr ⟨key :: before, failing, after, e, rfl,
              List.forall_mem_cons.mpr ⟨ok found, all⟩, failed⟩

/-- The catalog after an inquiry is the one that some questions leave. -/
theorem inquire_catalog (total : Nat) (keys : List Text) (current : Nat)
    (catalog : LocaleCatalog) :
    ∃ history : List Question, (∀ question ∈ history, question.tree = tree) ∧
      (inquire tree locale total current catalog keys).catalog = catalog.after history := by
  induction keys generalizing current catalog with
  | nil => exact ⟨[], by simp, rfl⟩
  | cons key rest inductionHypothesis =>
      cases found : (catalog.has tree key locale).result with
      | error e =>
          refine ⟨[⟨tree, key, locale⟩], by simp, ?_⟩
          simp [inquire, found, LocaleCatalog.after]
      | ok present =>
          obtain ⟨history, here, is⟩ :=
            inductionHypothesis (current + 1) (catalog.has tree key locale).catalog
          refine ⟨⟨tree, key, locale⟩ :: history, by simpa using here, ?_⟩
          simp only [inquire, found, is]
          rfl

end

/-- A finder scans files or only collects their keys, as the files are on disk at that time. -/
inductive Task where
  | collect (tree : Entry) (sources : List Source)
  | scan (tree : Entry) (sources : List Source) (sorted : Bool)

/-- The files on disk at the time of a task. -/
def Task.tree : Task → Entry
  | .collect tree _ | .scan tree _ _ => tree

/-- The files that a task is about. -/
def Task.sources : Task → List Source
  | .collect _ sources | .scan _ sources _ => sources

/-- Whether a task is a whole scan. -/
def Task.isScan : Task → Bool
  | .collect _ _ => false
  | .scan _ _ _ => true

/-- The run of a finder for a task. -/
def Task.run (finder : Finder) : Task → Run
  | .collect tree sources => finder.collect tree sources
  | .scan tree sources sorted => finder.scan tree sources sorted

/-- The runs of a finder, each by the finder that the one before left. -/
def Finder.runs (finder : Finder) : List Task → List Run
  | [] => []
  | task :: rest => task.run finder :: (task.run finder).finder.runs rest

/-- The order in which the catalog is asked for the keys of some scans. -/
def keysAsked (sorted : Bool) (scans : List FileScan) : List Text :=
  if sorted then Text.sort (aggregate scans).reported else (aggregate scans).reported

/-- How a task goes: the phase that it ends in, what is told of its progress, and its result. The
first file that fails ends it, and so does the first key that the catalog does not answer. -/
inductive Task.Course (finder : Finder) (answers : Text → Text → Except LoadError Bool) :
    Task → Phase → List Progress → Except ScanError ScanResult → Prop where
  | fileFailed {task : Task} {before after : List Source} {source : Source} {e : ScanError}
      {scans : List FileScan} (split : task.sources = before ++ source :: after)
      (scanned : finder.jobs task.tree before = scans.map .ok)
      (failed : scanSource task.tree finder.targets finder.directives source = .error e) :
      task.Course finder answers .scanning
        (counted .scanning task.sources.length 1 (before.map sourcePath)) (.error e)
  | collected {tree : Entry} {sources : List Source} {scans : List FileScan}
      (scanned : finder.jobs tree sources = scans.map .ok) :
      (Task.collect tree sources).Course finder answers .aggregating
        (counted .scanning sources.length 1 (sources.map sourcePath)) (.ok (aggregate scans))
  | keyFailed {tree : Entry} {sources : List Source} {sorted : Bool} {scans : List FileScan}
      {before after : List Text} {key : Text} {e : LoadError} {present : Text → Bool}
      (scanned : finder.jobs tree sources = scans.map .ok)
      (split : keysAsked sorted scans = before ++ key :: after)
      (answered : ∀ key ∈ before, answers key finder.locale = .ok (present key))
      (failed : answers key finder.locale = .error e) :
      (Task.scan tree sources sorted).Course finder answers .aggregating
        (counted .scanning sources.length 1 (sources.map sourcePath) ++
          counted .aggregating (keysAsked sorted scans).length 1 (before.map fun _ => none))
        (.error (.catalog e))
  | finished {tree : Entry} {sources : List Source} {sorted : Bool} {scans : List FileScan}
      {present : Text → Bool} (scanned : finder.jobs tree sources = scans.map .ok)
      (answered : ∀ key ∈ keysAsked sorted scans, answers key finder.locale = .ok (present key)) :
      (Task.scan tree sources sorted).Course finder answers .done
        (counted .scanning sources.length 1 (sources.map sourcePath) ++
          counted .aggregating (keysAsked sorted scans).length 1
            ((keysAsked sorted scans).map fun _ => none))
        (.ok { aggregate scans with missing := (keysAsked sorted scans).filter (!present ·) })

/-- A finder with another catalog. -/
def Finder.withCatalog (catalog : LocaleCatalog) (finder : Finder) : Finder :=
  { finder with catalog }

/-- The phase that a finder is in does not matter for a run. -/
theorem Task.run_phase (task : Task) (finder : Finder) (phase : Phase) :
    task.run { finder with phase } = task.run finder := by
  cases task <;> rfl

section

variable {trees : List Entry} {answers : Text → Text → Except LoadError Bool} {finder : Finder}

/-- A run comes to what it would come to with a catalog that only answers. -/
structure Run.LooksLike (plain run : Run) : Prop where
  result : run.result = plain.result
  told : told run.events = told plain.events
  phase : run.finder.phase = plain.finder.phase

/-- A look-up is as with a catalog that only answers. -/
theorem Run.lookUp_answers {tree : Entry} (known : tree ∈ trees) (sorted : Bool) {run : Run}
    (steady : run.finder.catalog.AnswersBy trees answers) :
    Run.LooksLike
      (({ run with finder := run.finder.withCatalog (.other answers) } : Run).lookUp tree sorted)
      (run.lookUp tree sorted) := by
  cases done : run.result with
  | error e =>
      simp only [Run.lookUp, done]
      exact ⟨done, rfl, rfl⟩
  | ok result =>
      let keys := if sorted then Text.sort result.reported else result.reported
      obtain ⟨same, events⟩ : _ ∧ told (inquire tree run.finder.locale _ _ _ _).events = _ :=
        inquire_answers tree keys.length keys 1 steady known
      simp only [keys] at same events
      simp only [Run.lookUp, done, Finder.withCatalog, same]
      cases (inquire tree run.finder.locale _ 1 (.other answers) _).result with
      | error e => exact ⟨rfl, by simp only [told_append, events], rfl⟩
      | ok missing => exact ⟨rfl, by simp only [told_append, events], rfl⟩

/-- The catalog does not matter where keys are collected. -/
theorem Finder.collect_withCatalog (tree : Entry) (sources : List Source) (finder : Finder)
    (catalog : LocaleCatalog) :
    (finder.withCatalog catalog).collect tree sources =
      { finder.collect tree sources with
        finder := (finder.collect tree sources).finder.withCatalog catalog } := by
  have same : (finder.withCatalog catalog).scanFiles tree sources =
    finder.scanFiles tree sources := rfl
  rw [collect, collect, same, fold, fold]
  cases (finder.scanFiles tree sources).result <;> rfl

/-- The catalog stays as it is where keys are collected. -/
theorem Finder.collect_catalog (tree : Entry) (sources : List Source) (finder : Finder) :
    (finder.collect tree sources).finder.catalog = finder.catalog := by
  rw [collect, fold]
  cases (finder.scanFiles tree sources).result <;> rfl

/-- A run is as with a catalog that only answers. -/
theorem Task.run_answers (task : Task) (steady : finder.catalog.AnswersBy trees answers)
    (known : task.tree ∈ trees) :
    (task.run (finder.withCatalog (.other answers))).LooksLike (task.run finder) := by
  cases task with
  | collect tree sources =>
      simp only [Task.run, Finder.collect_withCatalog]
      exact ⟨rfl, rfl, rfl⟩
  | scan tree sources sorted =>
      simp only [Task.run, Finder.scan, Finder.collect_withCatalog]
      refine Run.lookUp_answers known sorted ?_
      rwa [Finder.collect_catalog]

/-- A single worker takes the jobs in order. -/
theorem Finder.collect_single (single : finder.workers = some 1) (tree : Entry)
    (sources : List Source) :
    finder.collect tree sources =
      finder.fold (runInOrder (finder.jobs tree sources).length 1 (finder.jobs tree sources)) := by
  have alone : finder.runsAtOnce sources = false := by
    simp [Finder.runsAtOnce, Finder.isParallel, single]
  simp only [Finder.collect, Finder.scanFiles, alone, Bool.false_eq_true, if_false]

/-- The files before one that fails are told, and then the run is over. -/
theorem Finder.collect_failed (single : finder.workers = some 1) {tree : Entry}
    {before : List Source} {source : Source} {e : ScanError} {scans : List FileScan}
    (scanned : finder.jobs tree before = scans.map .ok)
    (failed : scanSource tree finder.targets finder.directives source = .error e)
    (after : List Source) :
    ∃ events, finder.collect tree (before ++ source :: after) =
        ⟨{ finder with phase := .scanning }, events, .error e⟩ ∧
      progressOf events =
        counted .scanning (before ++ source :: after).length 1 (before.map sourcePath) := by
  have jobs : finder.jobs tree (before ++ source :: after) =
      scans.map .ok ++ .error e :: finder.jobs tree after := by
    rw [← scanned, ← failed, Finder.jobs, List.map_append, List.map_cons]
    rfl
  have length : (finder.jobs tree (before ++ source :: after)).length =
    (before ++ source :: after).length := List.length_map _
  obtain ⟨events, result⟩ := runInOrder_append (before ++ source :: after).length 1 scans
    (.error e :: finder.jobs tree after)
  rw [← jobs] at events result
  rw [Finder.collect_single single, length, Finder.fold, result]
  exact ⟨_, rfl, by rw [events, ← Finder.jobs_paths scanned]; exact List.append_nil _⟩

/-- If no file fails, all are told. -/
theorem Finder.collect_scanned (single : finder.workers = some 1) {tree : Entry}
    {sources : List Source} {scans : List FileScan}
    (scanned : finder.jobs tree sources = scans.map .ok) :
    ∃ events, finder.collect tree sources =
        ⟨{ finder with phase := .aggregating }, events, .ok (aggregate scans)⟩ ∧
      progressOf events = counted .scanning sources.length 1 (sources.map sourcePath) := by
  have length : (finder.jobs tree sources).length = sources.length := List.length_map _
  obtain ⟨events, result⟩ := runInOrder_append sources.length 1 scans []
  have done : Except.map (scans ++ ·) (runInOrder sources.length (1 + scans.length) []).result =
    .ok scans := congrArg Except.ok (List.append_nil scans)
  rw [List.append_nil, ← scanned] at events result
  rw [Finder.collect_single single, length, Finder.fold, result, done]
  refine ⟨_, rfl, ?_⟩
  rw [progressOf_append, events, ← Finder.jobs_paths scanned, progressOf, progressOf,
    picked_map_none Event.progress? .warning (fun _ => rfl)]
  exact (List.append_nil _).trans (List.append_nil _)

/-- A key that is not answered ends the run. -/
theorem Run.lookUp_failed (tree : Entry) {run : Run} {sorted : Bool} {scans : List FileScan}
    {before after : List Text} {key : Text} {e : LoadError} {present : Text → Bool}
    (done : run.result = .ok (aggregate scans)) (catalog : run.finder.catalog = .other answers)
    (split : keysAsked sorted scans = before ++ key :: after)
    (answered : ∀ key ∈ before, answers key run.finder.locale = .ok (present key))
    (failed : answers key run.finder.locale = .error e) :
    (run.lookUp tree sorted).result = .error (.catalog e) ∧
      (run.lookUp tree sorted).finder.phase = run.finder.phase ∧
      progressOf (run.lookUp tree sorted).events = progressOf run.events ++
        counted .aggregating (keysAsked sorted scans).length 1 (before.map fun _ => none) := by
  obtain ⟨events, result⟩ := inquire_append tree (keysAsked sorted scans).length 1
    answered (key :: after)
  have answer : ((LocaleCatalog.other answers).has tree key run.finder.locale).result =
    .error e := failed
  rw [← split] at events result
  simp only [inquire, answer, Except.map] at events result
  simp only [keysAsked] at events result ⊢
  simp only [Run.lookUp, done, catalog, result, true_and]
  rw [progressOf_append, events]
  exact congrArg _ (List.append_nil _)

/-- If all keys are answered, the run is done. -/
theorem Run.lookUp_finished (tree : Entry) {run : Run} {sorted : Bool} {scans : List FileScan}
    {present : Text → Bool} (done : run.result = .ok (aggregate scans))
    (catalog : run.finder.catalog = .other answers)
    (answered : ∀ key ∈ keysAsked sorted scans,
      answers key run.finder.locale = .ok (present key)) :
    (run.lookUp tree sorted).result = .ok { aggregate scans with
        missing := (keysAsked sorted scans).filter (!present ·) } ∧
      (run.lookUp tree sorted).finder.phase = .done ∧
      progressOf (run.lookUp tree sorted).events = progressOf run.events ++
        counted .aggregating (keysAsked sorted scans).length 1
          ((keysAsked sorted scans).map fun _ => none) := by
  obtain ⟨events, result⟩ := inquire_append tree (keysAsked sorted scans).length 1
    answered []
  rw [List.append_nil] at events result
  simp only [inquire, Except.map, List.append_nil] at events result
  simp only [keysAsked] at events result ⊢
  simp only [Run.lookUp, done, catalog, result, true_and]
  rw [progressOf_append, progressOf_append, events, List.append_assoc]
  exact congrArg _ ((List.append_assoc _ _ _).trans (List.append_nil _))

/-- With a catalog that only answers, every task takes its course. -/
theorem Task.run_course (task : Task) (answers : Text → Text → Except LoadError Bool)
    (single : finder.workers = some 1) :
    task.Course finder answers (task.run (finder.withCatalog (.other answers))).finder.phase
      (progressOf (task.run (finder.withCatalog (.other answers))).events)
      (task.run (finder.withCatalog (.other answers))).result := by
  have alone : (finder.withCatalog (.other answers)).workers = some 1 := single
  rcases (finder.withCatalog (.other answers)).jobs_cases task.tree task.sources with
    ⟨scans, scanned⟩ | ⟨before, source, after, e, scans, split, scanned, failed⟩
  · obtain ⟨events, is, progress⟩ := Finder.collect_scanned alone scanned
    cases task with
    | collect tree sources =>
        have run : (Task.collect tree sources).run (finder.withCatalog (.other answers)) = _ := is
        rw [run, progress]
        exact .collected scanned
    | scan tree sources sorted =>
        have run : (Task.scan tree sources sorted).run (finder.withCatalog (.other answers)) =
          Run.lookUp tree sorted _ := congrArg (Run.lookUp tree sorted) is
        rw [run]
        let collected : Run := ⟨{ finder.withCatalog (.other answers) with phase := .aggregating },
          events, .ok (aggregate scans)⟩
        have done : collected.result = .ok (aggregate scans) := rfl
        have catalog : collected.finder.catalog = .other answers := rfl
        obtain ⟨present, answered | ⟨before, key, after, e, split, answered, failed⟩⟩ :=
          answers_cases (answers · finder.locale) (keysAsked sorted scans)
        · obtain ⟨result, phase, told⟩ := Run.lookUp_finished tree done catalog answered
          rw [result, phase, told, progress]
          exact .finished scanned answered
        · obtain ⟨result, phase, told⟩ :=
            Run.lookUp_failed tree done catalog split answered failed
          rw [result, phase, told, progress]
          exact .keyFailed scanned split answered failed
  · obtain ⟨events, is, progress⟩ := Finder.collect_failed alone scanned failed after
    rw [← split] at is progress
    have run : task.run (finder.withCatalog (.other answers)) =
        ⟨{ finder.withCatalog (.other answers) with phase := .scanning }, events, .error e⟩ := by
      cases task with
      | collect tree sources => exact is
      | scan tree sources sorted => exact congrArg (Run.lookUp tree sorted) is
    rw [run, progress]
    exact .fileFailed split scanned failed

end

/-- A finder after some runs is the fresh one with another phase, and its catalog was asked
before. -/
inductive Finder.Follows (trees : List Entry) (fresh : Finder) : Finder → Prop where
  | mk {history : List Question} (known : ∀ question ∈ history, question.tree ∈ trees)
      (phase : Phase) :
      fresh.Follows trees { fresh with catalog := fresh.catalog.after history, phase }

section

variable {trees : List Entry} {answers : Text → Text → Except LoadError Bool}
  {fresh finder : Finder}

theorem Finder.Follows.refl (trees : List Entry) (fresh : Finder) : fresh.Follows trees fresh :=
  @mk _ _ [] (by simp) fresh.phase

/-- A finder follows the fresh one after a look-up. -/
theorem Run.lookUp_follows {tree : Entry} (known : tree ∈ trees) (sorted : Bool) {run : Run}
    (follows : fresh.Follows trees run.finder) :
    fresh.Follows trees (run.lookUp tree sorted).finder := by
  cases done : run.result with
  | error e => simpa only [Run.lookUp, done] using follows
  | ok result =>
      obtain ⟨finder, events, outcome⟩ := run
      obtain rfl : outcome = .ok result := done
      obtain @⟨history, before, phase⟩ := follows
      let keys := if sorted then Text.sort result.reported else result.reported
      obtain ⟨later, here, catalog⟩ : ∃ _, _ ∧ (inquire _ fresh.locale _ _ _ _).catalog = _ :=
        inquire_catalog tree keys.length keys 1 (fresh.catalog.after history)
      have both : ∀ question ∈ history ++ later, question.tree ∈ trees := by
        intro question member
        rcases List.mem_append.mp member with member | member
        · exact before question member
        · exact here question member ▸ known
      have asked := LocaleCatalog.after_append history later fresh.catalog
      simp only [keys] at catalog
      simp only [Run.lookUp]
      split
      · rw [catalog, ← asked]
        exact .mk both phase
      · rw [catalog, ← asked]
        exact .mk both .done

/-- A finder follows the fresh one after a run. -/
theorem Task.run_follows (task : Task) (known : task.tree ∈ trees)
    (follows : fresh.Follows trees finder) : fresh.Follows trees (task.run finder).finder := by
  have collects (tree : Entry) (sources : List Source) :
      fresh.Follows trees (finder.collect tree sources).finder := by
    obtain @⟨history, before, phase⟩ := follows
    rw [Finder.collect, Finder.fold]
    split
    · exact .mk before .scanning
    · exact .mk before .aggregating
  cases task with
  | collect tree sources => exact collects tree sources
  | scan tree sources sorted => exact Run.lookUp_follows known sorted (collects tree sources)

/-- A run of a finder that went through others before, beside the run of a fresh one: the same result
and the same events. Its phase and its progress tell how it went. -/
structure Task.Accounts (task : Task) (fresh : Finder)
    (answers : Text → Text → Except LoadError Bool) (run : Run) : Prop where
  result : run.result = (task.run fresh).result
  told : told run.events = told (task.run fresh).events
  course : task.Course fresh answers run.finder.phase (progressOf run.events) run.result
  done_iff : run.finder.phase = .done ↔ task.isScan = true ∧ ∃ result, run.result = .ok result
  aggregating_iff : run.finder.phase = .aggregating ↔
    (task.isScan = false ∧ ∃ result, run.result = .ok result) ∨
      (task.isScan = true ∧ ∃ e, run.result = .error (.catalog e))
  scanning_iff : run.finder.phase = .scanning ↔ ∃ source ∈ task.sources, ∃ e,
    scanSource task.tree fresh.targets fresh.directives source = .error e

/-- The error of a file is none of the catalog. -/
theorem scanSource_error {tree : Entry} {targets : Targets} {directives : List Text}
    {source : Source} {e : LoadError} :
    scanSource tree targets directives source ≠ .error (.catalog e) := by
  have scanned (file : SourceFile) : scanFile targets directives file ≠ .error (.catalog e) := by
    rw [scanFile, parseFile]
    cases Php.parse (loweredText directives file) (some file.path.text) with
    | error unreadable => simp [Except.mapError, bind, Except.bind]
    | ok program =>
        change (scanProgram file.path.text program targets).mapError ScanError.escape ≠ _
        cases scanProgram file.path.text program targets <;> simp [Except.mapError]
  cases source with
  | given file => exact scanned file
  | onDisk path =>
      rw [scanSource, readSource]
      cases FileTree.readText tree .utf8 path with
      | error unreadable => simp [bind, Except.bind]
      | ok text => exact scanned _

/-- If all jobs have scans, no source fails. -/
theorem Finder.jobs_ok {tree : Entry} {sources : List Source} {scans : List FileScan}
    (scanned : finder.jobs tree sources = scans.map .ok) :
    ¬∃ source ∈ sources, ∃ e,
      scanSource tree finder.targets finder.directives source = .error e := by
  rintro ⟨source, member, e, failed⟩
  have job : .error e ∈ finder.jobs tree sources := List.mem_map.mpr ⟨source, member, failed⟩
  rw [scanned] at job
  exact error_not_mem_ok e scans job

/-- The phase tells which course a task took. -/
theorem Task.Course.phase_iff {task : Task} {phase : Phase} {progress : List Progress}
    {result : Except ScanError ScanResult}
    (course : task.Course fresh answers phase progress result) :
    (phase = .done ↔ task.isScan = true ∧ ∃ found, result = .ok found) ∧
      (phase = .aggregating ↔ (task.isScan = false ∧ ∃ found, result = .ok found) ∨
        (task.isScan = true ∧ ∃ e, result = .error (.catalog e))) ∧
      (phase = .scanning ↔ ∃ source ∈ task.sources, ∃ e,
        scanSource task.tree fresh.targets fresh.directives source = .error e) := by
  cases course with
  | @fileFailed _ before after source e scans split scanned failed =>
      have fails : ∃ source ∈ task.sources, ∃ e,
          scanSource task.tree fresh.targets fresh.directives source = .error e :=
        ⟨source, by simp [split], e, failed⟩
      have foreign (own : LoadError) : e ≠ .catalog own := by
        rintro rfl
        exact scanSource_error failed
      exact ⟨by simp, by simp [foreign], by simpa using fails⟩
  | collected scanned =>
      have none := Finder.jobs_ok scanned
      exact ⟨by simp [Task.isScan], by simp [Task.isScan],
        by simpa [Task.sources, Task.tree] using none⟩
  | keyFailed scanned split answered failed =>
      have none := Finder.jobs_ok scanned
      exact ⟨by simp, by simp [Task.isScan], by simpa [Task.sources, Task.tree] using none⟩
  | finished scanned answered =>
      have none := Finder.jobs_ok scanned
      exact ⟨by simp [Task.isScan], by simp [Task.isScan],
        by simpa [Task.sources, Task.tree] using none⟩

/-- Whatever runs a finder went through, a task is accounted for as if the finder were fresh. -/
theorem Task.run_accounts (task : Task) (single : fresh.workers = some 1)
    (steady : fresh.catalog.AnswersBy trees answers) (known : task.tree ∈ trees)
    (follows : fresh.Follows trees finder) : task.Accounts fresh answers (task.run finder) := by
  have first := task.run_answers steady known
  have course := task.run_course answers single
  obtain @⟨history, before, phase⟩ := follows
  let asked : Finder := { fresh with catalog := fresh.catalog.after history }
  have steadyAsked : asked.catalog.AnswersBy trees answers := steady.after before
  have later := task.run_answers steadyAsked known
  rw [task.run_phase asked]
  -- Both finders come to what the fresh one comes to with a catalog that only answers.
  have same : asked.withCatalog (.other answers) = fresh.withCatalog (.other answers) := rfl
  rw [same] at later
  rw [← later.phase, ← later.result, ← progressOf_told, ← later.told, progressOf_told] at course
  obtain ⟨done, aggregating, scanning⟩ := course.phase_iff
  exact ⟨later.result.trans first.result.symm, later.told.trans first.told.symm, course, done,
    aggregating, scanning⟩

/-- Every run of a finder is as that of a fresh one. -/
theorem Finder.runs_accounts (tasks : List Task) (single : fresh.workers = some 1)
    (steady : fresh.catalog.AnswersBy trees answers)
    (known : ∀ task ∈ tasks, task.tree ∈ trees) (follows : fresh.Follows trees finder) :
    List.Forall₂ (fun task run => task.Accounts fresh answers run) tasks (finder.runs tasks) := by
  induction tasks generalizing finder with
  | nil => exact .nil
  | cons task rest inductionHypothesis =>
      obtain ⟨here, others⟩ := List.forall_mem_cons.mp known
      exact .cons (task.run_accounts single steady here follows)
        (inductionHypothesis others (task.run_follows here follows))

end

/-- A finder with one worker carries nothing from one run to the next: every run comes to the result
of a fresh finder and tells the same. Its phase and its progress tell how far it got. -/
theorem runs_likeFresh (catalog : LocaleCatalog) (locale : Text) (targets : Targets)
    (directives : List Text) (tasks : List Task) {answers : Text → Text → Except LoadError Bool}
    (steady : catalog.AnswersBy (tasks.map Task.tree) answers) :
    let fresh := Finder.new catalog locale targets (some 1) directives
    List.Forall₂ (fun task run => task.Accounts fresh answers run) tasks (fresh.runs tasks) :=
  Finder.runs_accounts tasks rfl steady (fun _ => List.mem_map_of_mem) (.refl _ _)

/-- This catalog refuses one key of the two files. -/
def refusing (key _locale : Text) : Except LoadError Bool :=
  if key = Text.ofString "own" then .error (.unknownLocale key) else .ok false

/-- A file that cannot be parsed is scanned first, and then two files are collected and scanned. -/
def brokenFirst : List Task := [
  .scan .empty (.given ⟨Path.ofText "c.php", "<?php __(;".toList, .code⟩ :: twoFiles) true,
  .collect .empty twoFiles,
  .scan .empty twoFiles false]

/-- The failed run leaves nothing behind for the next ones. -/
theorem runs_likeFresh_brokenFirst :
    let fresh := Finder.new (.other refusing) "fr" .default (some 1) []
    (LocaleCatalog.other refusing).AnswersBy (brokenFirst.map Task.tree) refusing ∧
      List.Forall₂ (fun task run => task.Accounts fresh refusing run) brokenFirst
        (fresh.runs brokenFirst) ∧
      (fresh.runs brokenFirst).map (·.finder.phase) = [.scanning, .aggregating, .aggregating] ∧
      (fresh.runs brokenFirst).map (fun run => (progressOf run.events).map (·.current)) =
        [[], [1, 2], [1, 2, 1]] := by
  have steady := LocaleCatalog.other_answersBy (brokenFirst.map Task.tree) refusing
  exact ⟨steady, runs_likeFresh (.other refusing) "fr" .default [] brokenFirst steady,
    by decide +kernel, by decide +kernel⟩

end Untranslated.Scan
