/-
This file proves what a scan of files reports.
Every literal key of a call is reported once, and the catalog is asked for it once.
-/

import Untranslated.Proofs.Catalog.Answers
import Untranslated.Proofs.Scan.Calls
import Untranslated.Proofs.Scan.Collect

namespace Untranslated.Scan

open Call (Targets)
open Catalog (LocaleCatalog)
open FileTree (Entry Path)
open Php (Program)
open Php.Literal (EscapeError)

/-- What a catalog comes to that is asked for keys and answers each of them. -/
structure Inquiry.Answered (inquiry : Inquiry) (keys : List Text) (answers : Text → Bool) :
    Prop where
  missing : inquiry.result = .ok (keys.filter (!answers ·))
  askedOnce : asked inquiry.events = keys
  noWarning : warned inquiry.events = []

/-- A catalog that answers every key is asked for each in turn. -/
theorem inquire_answered {tree : Entry} {locale : Text} {answers : Text → Bool} (total : Nat)
    (keys : List Text) (current : Nat) (catalog : LocaleCatalog)
    (answered : ∀ key, (catalog.has tree key locale).result = .ok (answers key)) :
    (inquire tree locale total current catalog keys).Answered keys answers := by
  induction keys generalizing current catalog with
  | nil => exact ⟨rfl, rfl, rfl⟩
  | cons key rest inductionHypothesis =>
      -- The catalog after the answer still answers as the first one did.
      have again (other : Text) := (LocaleCatalog.has_again (answered key) other).trans
        (answered other)
      have later := inductionHypothesis (current + 1) _ again
      refine ⟨?_, ?_, ?_⟩
      · simp only [inquire, answered key, later.missing, Except.map]
        cases present : answers key <;> simp [present]
      · have silent := picked_map_none Event.question? .record (fun _ => rfl)
          (catalog.has tree key locale).records
        simp [inquire, answered key, Event.question?, silent, later.askedOnce]
      · have silent := picked_map_none Event.warning? .record (fun _ => rfl)
          (catalog.has tree key locale).records
        simp [inquire, answered key, Event.warning?, silent, later.noWarning]

/-- The program of a source, with the path that its warnings name. -/
def parseSource (tree : Entry) (directives : List Text) (source : Source) :
    Except ScanError (Text × Program) := do
  let file ← readSource tree source
  return (file.path.text, ← parseFile directives file)

/-- The calls of all files, in the order of the files. -/
def callsOf (targets : Targets) (programs : List (Text × Program)) :
    Except EscapeError (List FoundCall) :=
  (programs.mapM fun (path, program) => callsIn targets path program).map List.flatten

/-- The job of a file that is read and parsed. -/
def programJob (targets : Targets) : Text × Program → Job
  | (path, program) => (scanProgram path program targets).mapError .escape

/-- The scan of a source that can be parsed is the job of its program. -/
theorem scanSource_parseSource {tree : Entry} {directives : List Text} {source : Source}
    {parsed : Text × Program} (targets : Targets)
    (success : parseSource tree directives source = .ok parsed) :
    scanSource tree targets directives source = programJob targets parsed := by
  cases read : readSource tree source with
  | error e => simp [parseSource, read, bind, Except.bind] at success
  | ok file =>
      cases parse : parseFile directives file with
      | error e => simp [parseSource, read, parse, bind, Except.bind] at success
      | ok program =>
          simp only [parseSource, read, parse, bind, Except.bind, pure, Except.pure,
            Except.ok.injEq] at success
          rw [← success]
          simp only [scanSource, scanFile, read, parse, bind, Except.bind, programJob]

/-- The jobs of sources that can be parsed are those of their programs. -/
theorem Finder.jobs_parsed {tree : Entry} {sources : List Source} {finder : Finder}
    {programs : List (Text × Program)}
    (parsed : sources.mapM (parseSource tree finder.directives) = .ok programs) :
    finder.jobs tree sources = programs.map (programJob finder.targets) := by
  rw [Finder.jobs]
  induction sources generalizing programs with
  | nil =>
      obtain rfl : programs = [] := by simpa [pure, Except.pure, eq_comm] using parsed
      rfl
  | cons source rest inductionHypothesis =>
      rw [List.mapM_cons] at parsed
      cases first : parseSource tree finder.directives source with
      | error e => simp [first, bind, Except.bind] at parsed
      | ok program =>
          cases others : rest.mapM (parseSource tree finder.directives) with
          | error e => simp [first, others, bind, Except.bind] at parsed
          | ok later =>
              simp only [first, others, bind, Except.bind, pure, Except.pure,
                Except.ok.injEq] at parsed
              rw [← parsed, List.map_cons, List.map_cons, inductionHypothesis others,
                scanSource_parseSource finder.targets first]

/-- The jobs of files are done if all their calls can be told. Otherwise one of them fails. -/
theorem programJob_callsIn (targets : Targets) (path : Text) (program : Program) :
    match callsIn targets path program with
    | .ok calls => programJob targets (path, program) = .ok (.ofCalls path calls)
    | .error _ => ∃ e, programJob targets (path, program) = .error (.escape e) := by
  have scanned := scanProgram_callsIn path program targets
  cases calls : callsIn targets path program with
  | error e =>
      cases scan : scanProgram path program targets with
      | error e => exact ⟨e, by simp [programJob, scan, Except.mapError]⟩
      | ok scan => simp_all [Except.toOption]
  | ok calls =>
      cases scan : scanProgram path program targets with
      | error e => simp_all [Except.toOption]
      | ok scan => simp_all [Except.toOption, programJob, Except.mapError]

/-- The scans of the files have the keys and the warnings of all calls. -/
theorem aggregate_ofCalls (files : List (Text × List FoundCall)) :
    aggregate (files.map fun (path, calls) => .ofCalls path calls) =
      { reported := ((files.flatMap (·.2)).filterMap FoundCall.key?).eraseDups
        missing := []
        warnings := (files.flatMap (·.2)).filterMap FoundCall.warning?
        filesScanned := files.length } := by
  have keys : Text.unique (files.flatMap fun file =>
      Text.unique (file.2.filterMap FoundCall.key?)) =
        ((files.flatMap (·.2)).filterMap FoundCall.key?).eraseDups := by
    calc
      Text.unique (files.flatMap fun file => Text.unique (file.2.filterMap FoundCall.key?)) =
          Text.unique ((files.map fun file => file.2.filterMap FoundCall.key?).flatMap
            Text.unique) := by rw [List.flatMap_map]
      _ = Text.unique (files.map fun file => file.2.filterMap FoundCall.key?).flatten :=
        Text.unique_flatMap_unique _
      _ = Text.unique ((files.flatMap (·.2)).filterMap FoundCall.key?) := by
        rw [List.filterMap_flatMap, List.flatMap_def]
      _ = ((files.flatMap (·.2)).filterMap FoundCall.key?).eraseDups := Text.unique_eq_eraseDups _
  have warnings : (files.flatMap fun file => file.2.filterMap FoundCall.warning?) =
      (files.flatMap (·.2)).filterMap FoundCall.warning? := List.filterMap_flatMap.symm
  simp only [aggregate, List.flatMap_map, FileScan.ofCalls, keys, warnings, List.length_map]

/-- The calls of the first file come first. -/
theorem callsOf_cons (targets : Targets) (path : Text) (program : Program)
    (rest : List (Text × Program)) :
    callsOf targets ((path, program) :: rest) = (do
      let own ← callsIn targets path program
      let others ← callsOf targets rest
      pure (own ++ others)) := by
  rw [callsOf, List.mapM_cons, callsOf]
  dsimp only
  cases callsIn targets path program with
  | error e => rfl
  | ok own => cases rest.mapM fun (path, program) => callsIn targets path program <;> rfl

/-- If all calls can be told, the jobs are done with the scans of their own calls. Otherwise one of
them fails. -/
theorem programJobs_callsOf (targets : Targets) (programs : List (Text × Program)) :
    match callsOf targets programs with
    | .ok calls => ∃ files : List (Text × List FoundCall),
        files.map (·.1) = programs.map (·.1) ∧ files.flatMap (·.2) = calls ∧
          programs.map (programJob targets) =
            (files.map fun (path, calls) => FileScan.ofCalls path calls).map .ok
    | .error _ => ∃ e, .error (.escape e) ∈ programs.map (programJob targets) := by
  induction programs with
  | nil => exact ⟨[], rfl, rfl, rfl⟩
  | cons file rest inductionHypothesis =>
      obtain ⟨path, program⟩ := file
      have job := programJob_callsIn targets path program
      rw [callsOf_cons]
      cases own : callsIn targets path program with
      | error e =>
          obtain ⟨e, failed⟩ : ∃ e, programJob targets (path, program) = .error (.escape e) := by
            simpa [own] using job
          exact ⟨e, by simp [failed]⟩
      | ok own' =>
          have done : programJob targets (path, program) = .ok (.ofCalls path own') := by
            simpa [own] using job
          cases later : callsOf targets rest with
          | error e =>
              rw [later] at inductionHypothesis
              obtain ⟨e, failed⟩ := inductionHypothesis
              exact ⟨e, List.mem_cons_of_mem _ failed⟩
          | ok others =>
              rw [later] at inductionHypothesis
              obtain ⟨files, paths, joined, jobs⟩ := inductionHypothesis
              refine ⟨(path, own') :: files, by simp [paths], by simp [joined], ?_⟩
              rw [List.map_cons, done, jobs]
              rfl

/-- Jobs of parsed files fail at escapes only. -/
theorem programJobs_error {targets : Targets} {programs : List (Text × Program)} {e : ScanError}
    (failed : .error e ∈ programs.map (programJob targets)) : ∃ escape, e = .escape escape := by
  obtain ⟨⟨path, program⟩, _, job⟩ := List.mem_map.mp failed
  cases scan : scanProgram path program targets with
  | error escape =>
      exact ⟨escape, by simpa [programJob, scan, Except.mapError, eq_comm] using job⟩
  | ok scan => simp [programJob, scan, Except.mapError] at job

/-- A run reports calls when every call gives its literal key or its warning, a key counts once, and
the catalog is asked for each key after all files are scanned and all warnings are delivered. -/
structure Run.Reports (run : Run) (paths : List Text) (calls : List FoundCall)
    (answers : Text → Bool) (sorted : Bool) (result : ScanResult) : Prop where
  returned : run.result = .ok result
  reported : result.reported = (calls.filterMap FoundCall.key?).eraseDups
  reportedOnce : result.reported.Nodup
  warnings : result.warnings = calls.filterMap FoundCall.warning?
  keyOrWarning : ∀ call ∈ calls, call.key?.isSome = !call.warning?.isSome
  shared : (calls.filterMap FoundCall.key?).length + result.warnings.length = calls.length
  missing : result.missing =
    if sorted then Text.sort (result.reported.filter (!answers ·))
    else result.reported.filter (!answers ·)
  missingSorted : sorted = true → result.missing.Pairwise fun s t => Text.le s t = true
  filesScanned : result.filesScanned = paths.length
  phase : run.finder.phase = .done
  events : ∃ scanning asking,
    run.events = scanning ++ result.warnings.map .warning ++ asking ∧
      (scannedPaths scanning).Perm paths ∧ warned scanning = [] ∧ asked scanning = [] ∧
      warned asking = [] ∧
      asked asking = if sorted then Text.sort result.reported else result.reported

/-- The run after its keys are looked up. -/
theorem lookUp_reports {tree : Entry} {finder : Finder} {answers : Text → Bool} {jobs : List Job}
    {outcome : Outcome (List FileScan)} (faithful : outcome.Faithful jobs)
    (files : List (Text × List FoundCall))
    (done : jobs = (files.map fun (path, calls) => FileScan.ofCalls path calls).map .ok)
    (answered : ∀ key, (finder.catalog.has tree key finder.locale).result = .ok (answers key))
    (sorted : Bool) :
    ∃ result, ((finder.fold outcome).lookUp tree sorted).Reports (files.map (·.1))
      (files.flatMap (·.2)) answers sorted result := by
  have scans := faithful.ok done
  have folded : finder.fold outcome = ⟨{ finder with phase := .aggregating },
      outcome.events ++ (aggregate (files.map fun (path, calls) =>
        FileScan.ofCalls path calls)).warnings.map .warning,
      .ok (aggregate (files.map fun (path, calls) => FileScan.ofCalls path calls))⟩ := by
    simp only [Finder.fold, scans]
  rw [folded, aggregate_ofCalls]
  generalize reported : ((files.flatMap (·.2)).filterMap FoundCall.key?).eraseDups = keys
  have once : keys.Nodup := by
    rw [← reported, ← Text.unique_eq_eraseDups]
    exact Text.uniqueNodup _
  have inquiry := inquire_answered (if sorted then Text.sort keys else keys).length
    (if sorted then Text.sort keys else keys) 1 finder.catalog answered
  have missing : (if sorted then Text.sort keys else keys).filter (!answers ·) =
      if sorted then Text.sort (keys.filter (!answers ·)) else keys.filter (!answers ·) := by
    cases sorted with
    | true => exact Text.sort_filter _ keys
    | false => rfl
  refine ⟨{ reported := keys
            missing := (if sorted then Text.sort keys else keys).filter (!answers ·)
            warnings := (files.flatMap (·.2)).filterMap FoundCall.warning?
            filesScanned := files.length }, ?_⟩
  simp only [Run.lookUp, inquiry.missing]
  exact {
    returned := rfl
    reported := reported.symm
    reportedOnce := once
    warnings := rfl
    keyOrWarning := fun call _ => call.key_or_warning
    shared := foundCalls_length _
    missing := missing
    missingSorted := by
      rintro rfl
      exact (Text.sort_pairwise keys).filter _
    filesScanned := by simp
    phase := rfl
    events := by
      refine ⟨outcome.events, _, List.append_assoc _ _ _, ?_, faithful.noWarning,
        faithful.noQuestion, ?_, ?_⟩
      · simpa [FileScan.ofCalls, Function.comp_def] using faithful.told _ scans
      · simp [inquiry.noWarning, Event.warning?]
      · simp [inquiry.askedOnce, Event.question?] }

/-- A scan of files that are read and parsed reports their calls, whatever order they are scanned
in. It fails just when a call cannot be told for an escape beyond the last code point. Then nothing
is delivered or asked. -/
theorem scan_reportsCalls {tree : Entry} {sources : List Source} (finder : Finder)
    {programs : List (Text × Program)} {answers : Text → Bool}
    (parsed : sources.mapM (parseSource tree finder.directives) = .ok programs)
    (answered : ∀ key, (finder.catalog.has tree key finder.locale).result = .ok (answers key))
    (sorted : Bool) {run : Run} (collected : finder.MayCollect tree sources run) :
    match callsOf finder.targets programs with
    | .ok calls => ∃ result,
        (run.lookUp tree sorted).Reports (programs.map (·.1)) calls answers sorted result
    | .error _ =>
        (∃ e, (run.lookUp tree sorted).result = .error (.escape e)) ∧
          warned (run.lookUp tree sorted).events = [] ∧
          asked (run.lookUp tree sorted).events = [] := by
  obtain ⟨outcome, may, rfl⟩ := collected
  have faithful := may.faithful
  rw [Finder.jobs_parsed parsed] at faithful
  have jobs := programJobs_callsOf finder.targets programs
  cases told : callsOf finder.targets programs with
  | error e =>
      rw [told] at jobs
      obtain ⟨e, failed⟩ := jobs
      obtain ⟨found, member, run⟩ := finder.fold_error faithful failed
      obtain ⟨escape, rfl⟩ := programJobs_error member
      rw [run]
      exact ⟨⟨escape, rfl⟩, faithful.noWarning, faithful.noQuestion⟩
  | ok calls =>
      rw [told] at jobs
      obtain ⟨files, paths, rfl, done⟩ := jobs
      obtain ⟨result, reports⟩ := lookUp_reports faithful files done answered sorted
      rw [paths] at reports
      exact ⟨result, reports⟩

/-- A catalog with the key of one file. -/
def ownKeys : LocaleCatalog := .keys (.memory [("fr", ["own"])])

/-- The report of the two files lacks their shared key. -/
theorem scan_reportsCalls_twoFiles :
    ∃ programs answers calls result,
      twoFiles.mapM (parseSource .empty []) = .ok programs ∧
        (∀ key, (ownKeys.has .empty key "fr").result = .ok (answers key)) ∧
        callsOf .default programs = .ok calls ∧
        ((Finder.new ownKeys "fr" .default none []).scan .empty twoFiles false).Reports
          (programs.map (·.1)) calls answers false result ∧
        result.missing = [Text.ofString "shared"] := by
  have told : ((twoFiles.mapM (parseSource .empty [])).toOption.bind fun programs =>
      (callsOf .default programs).toOption).isSome = true := by decide +kernel
  cases parsed : twoFiles.mapM (parseSource .empty []) with
  | error e => simp [parsed, Except.toOption] at told
  | ok programs =>
  cases found : callsOf .default programs with
  | error e => simp [parsed, found, Except.toOption] at told
  | ok calls =>
  let finder := Finder.new ownKeys "fr" .default none []
  have answered (key : Text) : (ownKeys.has .empty key "fr").result =
      .ok ([Text.ofString "own"].contains key) := rfl
  have reports := scan_reportsCalls finder parsed answered false
    (finder.collect_mayCollect .empty twoFiles)
  have targets : finder.targets = .default := rfl
  rw [targets, found] at reports
  obtain ⟨result, reports⟩ := reports
  refine ⟨programs, _, calls, result, rfl, answered, found, reports, ?_⟩
  have missing : (finder.scan .empty twoFiles false).result.toOption.map (·.missing) =
      some [Text.ofString "shared"] := by decide +kernel
  rw [show (finder.scan .empty twoFiles false).result = .ok result from reports.returned] at missing
  exact Option.some.inj missing

/-- The key of this call names a code point beyond the last one. -/
def oversizedEscape : List Source := [
  .given ⟨Path.ofText "a.php", "<?php __(\"\\u\x7b110000\x7d\");".toList, .code⟩]

/-- The escape at which a run fails. -/
def escapeOf? {A : Type} : Except ScanError A → Option EscapeError
  | .error (.escape e) => some e
  | _ => none

/-- The file is read and parsed and the catalog answers, but there is no report. -/
theorem scan_oversizedEscape_fails :
    (oversizedEscape.mapM (parseSource .empty [])).isOk = true ∧
      (∀ key, ∃ answer, (ownKeys.has .empty key "fr").result = .ok answer) ∧
      ∃ e, ((Finder.new ownKeys "fr" .default (some 1) []).scan .empty oversizedEscape false).result =
        .error (.escape e) := by
  refine ⟨by decide +kernel, fun key => ⟨_, rfl⟩, .beyondUnicode, ?_⟩
  let run := (Finder.new ownKeys "fr" .default (some 1) []).scan .empty oversizedEscape false
  have failed : escapeOf? run.result = some .beyondUnicode := by decide +kernel
  cases result : run.result with
  | ok reported => simp [result, escapeOf?] at failed
  | error e =>
      cases e with
      | escape e => rw [show e = .beyondUnicode by simpa [result, escapeOf?] using failed]
      | _ => simp [result, escapeOf?] at failed

end Untranslated.Scan
