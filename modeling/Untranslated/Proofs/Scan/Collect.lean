/-
This file compares the scans of several workers with the scan of one.
Every run of the pool gives what the files give one after the other, or the error of a file.
-/

import Untranslated.Proofs.Scan.Pool

namespace Untranslated.Scan

open FileTree (Entry Path)

/-- An outcome has the scans of all jobs in their order, or the error of one of them. Neither a
warning nor a question comes before it, and every scan is told. -/
structure Outcome.Faithful (jobs : List Job) (outcome : Outcome (List FileScan)) : Prop where
  result : (∃ scans, outcome.result = .ok scans ∧ jobs = scans.map .ok) ∨
    ∃ e, outcome.result = .error e ∧ .error e ∈ jobs
  noWarning : warned outcome.events = []
  noQuestion : asked outcome.events = []
  told : ∀ scans, outcome.result = .ok scans →
    (scannedPaths outcome.events).Perm (scans.map (·.path))

/-- Jobs without an error have scans. -/
theorem ok_of_noError {jobs : List Job} (done : ∀ e, .error e ∉ jobs) :
    ∃ scans : List FileScan, jobs = scans.map .ok := by
  induction jobs with
  | nil => exact ⟨[], rfl⟩
  | cons job rest inductionHypothesis =>
      obtain ⟨scans, rfl⟩ := inductionHypothesis fun e member =>
        done e (List.mem_cons_of_mem _ member)
      cases job with
      | error e => exact absurd List.mem_cons_self (done e)
      | ok scan => exact ⟨scan :: scans, rfl⟩

theorem error_not_mem_ok (e : ScanError) (scans : List FileScan) :
    (.error e : Job) ∉ scans.map .ok := by
  simp

/-- Jobs tell their scans. -/
theorem ok_injective {first second : List FileScan}
    (same : first.map (.ok : FileScan → Job) = second.map .ok) : first = second :=
  (List.map_injective_iff.mpr fun _ _ equal => Except.ok.inj equal) same

section

variable {jobs : List Job} {outcome : Outcome (List FileScan)} {scans : List FileScan}

/-- A faithful outcome of jobs with scans has these scans. -/
theorem Outcome.Faithful.ok (faithful : outcome.Faithful jobs) (done : jobs = scans.map .ok) :
    outcome.result = .ok scans := by
  rcases faithful.result with ⟨found, result, own⟩ | ⟨e, _, member⟩
  · rw [result, ok_injective (own.symm.trans done)]
  · exact absurd (done ▸ member) (error_not_mem_ok e scans)

/-- A faithful outcome of jobs with an error has one of them. -/
theorem Outcome.Faithful.error (faithful : outcome.Faithful jobs) {e : ScanError}
    (failed : .error e ∈ jobs) : ∃ found, outcome.result = .error found ∧ .error found ∈ jobs := by
  rcases faithful.result with ⟨found, _, own⟩ | raised
  · exact absurd (own ▸ failed) (error_not_mem_ok e found)
  · exact raised

/-- A run in order is faithful to its jobs. -/
theorem runInOrder_faithful (total current : Nat) (jobs : List Job) :
    (runInOrder total current jobs).Faithful jobs := by
  induction jobs generalizing current with
  | nil =>
      refine ⟨.inl ⟨[], rfl, rfl⟩, rfl, rfl, ?_⟩
      rintro scans ⟨rfl⟩
      exact .refl []
  | cons job rest inductionHypothesis =>
      cases job with
      | error e => exact ⟨.inr ⟨e, rfl, List.mem_cons_self⟩, rfl, rfl, by simp [runInOrder]⟩
      | ok scan =>
          have later := inductionHypothesis (current + 1)
          refine ⟨?_, ?_, ?_, ?_⟩
          · rcases later.result with ⟨scans, result, own⟩ | ⟨e, result, member⟩
            · exact .inl ⟨scan :: scans, by simp [runInOrder, result, Except.map], by simp [own]⟩
            · exact .inr ⟨e, by simp [runInOrder, result, Except.map],
                List.mem_cons_of_mem _ member⟩
          · simp [runInOrder, Event.warning?, scanned, later.noWarning]
          · simp [runInOrder, Event.question?, scanned, later.noQuestion]
          · intro scans result
            cases others : (runInOrder total (current + 1) rest).result with
            | error e => simp [runInOrder, others, Except.map] at result
            | ok scans =>
                simp only [runInOrder, others, Except.map, Except.ok.injEq] at result
                rw [← result]
                exact (later.told scans others).cons scan.path

/-- A run with workers is faithful to its jobs in every order. -/
theorem Reached.faithful {steps : Nat} {stage : Stage} (reached : Reached jobs steps stage)
    (ended : stage.outcome? jobs = some outcome) : outcome.Faithful jobs := by
  have sound := reached.sound
  cases doing : stage.activity with
  | waiting => simp [Stage.outcome?, doing] at ended
  | taking batch => simp [Stage.outcome?, doing] at ended
  | raised e =>
      obtain rfl : ⟨stage.events, .error e⟩ = outcome := by simpa [Stage.outcome?, doing] using ended
      exact ⟨.inr ⟨e, rfl, sound.raisedOwn e doing⟩, sound.noWarning, sound.noQuestion, by simp⟩
  | returned =>
      obtain rfl : ⟨stage.events, .ok (stage.pool.inOrder jobs.length)⟩ = outcome := by
        simpa [Stage.outcome?, doing] using ended
      have complete := sound.returnedLast doing
      refine ⟨.inl ⟨_, rfl, (sound.inOrder_own complete).symm⟩, sound.noWarning, sound.noQuestion,
        ?_⟩
      rintro scans ⟨rfl⟩
      rw [sound.told]
      simpa [Function.comp_def] using (sound.inOrder_perm complete).map (·.path)

/-- The run that the scans of all files lead to. -/
theorem Finder.fold_ok (finder : Finder) (faithful : outcome.Faithful jobs)
    (done : jobs = scans.map .ok) :
    (finder.fold outcome).result = .ok (aggregate scans) ∧
      warned (finder.fold outcome).events = (aggregate scans).warnings ∧
      asked (finder.fold outcome).events = [] := by
  have result := faithful.ok done
  have delivered := picked_map_some Event.warning? .warning (fun _ => rfl) (aggregate scans).warnings
  have silent := picked_map_none Event.question? .warning (fun _ => rfl) (aggregate scans).warnings
  simp [Finder.fold, result, faithful.noWarning, faithful.noQuestion, delivered, silent]

/-- A file that fails ends the run before anything is delivered or asked. -/
theorem Finder.fold_error (finder : Finder) (faithful : outcome.Faithful jobs) {e : ScanError}
    (failed : .error e ∈ jobs) :
    ∃ found, .error found ∈ jobs ∧
      finder.fold outcome = ⟨{ finder with phase := .scanning }, outcome.events, .error found⟩ := by
  obtain ⟨found, result, member⟩ := faithful.error failed
  exact ⟨found, member, by simp [Finder.fold, result]⟩

/-- Two faithful outcomes lead to the same result, or both to an error. -/
theorem Finder.fold_agree (first second : Finder) {other : Outcome (List FileScan)}
    (faithful : outcome.Faithful jobs) (otherFaithful : other.Faithful jobs) :
    ((∀ e, .error e ∉ jobs) →
      ∃ scans, jobs = scans.map .ok ∧ (first.fold outcome).result = .ok (aggregate scans) ∧
        (second.fold other).result = .ok (aggregate scans) ∧
        warned (first.fold outcome).events = warned (second.fold other).events) ∧
    ((∃ e, (first.fold outcome).result = .error e) ↔
      ∃ e, (second.fold other).result = .error e) := by
  by_cases failed : ∃ e, .error e ∈ jobs
  · obtain ⟨e, member⟩ := failed
    obtain ⟨found, _, run⟩ := first.fold_error faithful member
    obtain ⟨otherFound, _, otherRun⟩ := second.fold_error otherFaithful member
    refine ⟨fun done => absurd member (done e), ?_⟩
    rw [run, otherRun]
    exact ⟨fun _ => ⟨otherFound, rfl⟩, fun _ => ⟨found, rfl⟩⟩
  · obtain ⟨scans, done⟩ := ok_of_noError (not_exists.mp failed)
    obtain ⟨result, warnings, _⟩ := first.fold_ok faithful done
    obtain ⟨otherResult, otherWarnings, _⟩ := second.fold_ok otherFaithful done
    refine ⟨fun _ => ⟨scans, done, result, otherResult, warnings.trans otherWarnings.symm⟩, ?_⟩
    simp [result, otherResult]

end

/-- What a scan of the sources may come to. Several workers leave the order of the jobs open. -/
inductive Finder.MayScan (tree : Entry) (sources : List Source) (finder : Finder) :
    Outcome (List FileScan) → Prop where
  | oneByOne (single : finder.runsAtOnce sources = false) :
      finder.MayScan tree sources
        (runInOrder (finder.jobs tree sources).length 1 (finder.jobs tree sources))
  | atOnce (several : finder.runsAtOnce sources = true) {steps : Nat} {stage : Stage}
      {outcome : Outcome (List FileScan)}
      (reached : Reached (finder.jobs tree sources) steps stage)
      (ended : stage.outcome? (finder.jobs tree sources) = some outcome) :
      finder.MayScan tree sources outcome

/-- The runs that may collect the keys of the sources. -/
def Finder.MayCollect (tree : Entry) (sources : List Source) (finder : Finder) (run : Run) : Prop :=
  ∃ outcome, finder.MayScan tree sources outcome ∧ run = finder.fold outcome

section

variable {tree : Entry} {sources : List Source} {finder : Finder}
  {outcome : Outcome (List FileScan)}

/-- Every scan of the sources is faithful to their jobs. -/
theorem Finder.MayScan.faithful (may : finder.MayScan tree sources outcome) :
    outcome.Faithful (finder.jobs tree sources) := by
  cases may with
  | oneByOne => exact runInOrder_faithful _ _ _
  | atOnce _ reached ended => exact reached.faithful ended

/-- Jobs are only handed out if there are some. -/
theorem Finder.jobs_ne_nil (several : finder.runsAtOnce sources = true) :
    finder.jobs tree sources ≠ [] := by
  simp only [runsAtOnce, Bool.and_eq_true, decide_eq_true_eq] at several
  intro empty
  have length := congrArg List.length empty
  simp only [jobs, List.length_map, List.length_nil] at length
  omega

/-- The scan of a finder is one of those that it may come to. -/
theorem Finder.scanFiles_mayScan (finder : Finder) (tree : Entry) (sources : List Source) :
    finder.MayScan tree sources (finder.scanFiles tree sources) := by
  unfold scanFiles
  cases several : finder.runsAtOnce sources with
  | false => exact .oneByOne several
  | true =>
      have jobsLeft : finder.jobs tree sources ≠ [] := jobs_ne_nil several
      obtain ⟨steps, stage, reached, ended⟩ := reached_runAtOnce jobsLeft
      exact .atOnce several reached ended

/-- The run of a finder is one of those that may collect the keys. -/
theorem Finder.collect_mayCollect (finder : Finder) (tree : Entry) (sources : List Source) :
    finder.MayCollect tree sources (finder.collect tree sources) :=
  ⟨_, finder.scanFiles_mayScan tree sources, rfl⟩

end

/-- A finder with so many workers. -/
def Finder.withWorkers (count : Int) (finder : Finder) : Finder :=
  { finder with workers := some count }

/-- Several workers and one worker come to the same keys, warnings and number of files, whatever
order the jobs finish in. If a file fails, both runs fail before any warning and any question. Every
run of the workers ends. -/
theorem collect_everySchedule (tree : Entry) (sources : List Source) (finder : Finder) (count : Int)
    (several : 2 ≤ sources.length) (above : 1 < count) :
    let jobs := finder.jobs tree sources
    let parallel := finder.withWorkers count
    let sequential := (finder.withWorkers 1).collect tree sources
    (∀ steps stage, Reached jobs steps stage →
      steps ≤ 4 * jobs.length + 1 ∧
        ((stage.outcome? jobs).isSome ∨ ∃ next, Step jobs stage next)) ∧
    (∀ run, parallel.MayCollect tree sources run ↔
      ∃ steps stage outcome, Reached jobs steps stage ∧ stage.outcome? jobs = some outcome ∧
        run = parallel.fold outcome) ∧
    parallel.MayCollect tree sources (parallel.collect tree sources) ∧
    ∀ run, parallel.MayCollect tree sources run →
      ((∀ e, .error e ∉ jobs) →
        ∃ scans, jobs = scans.map .ok ∧ run.result = .ok (aggregate scans) ∧
          sequential.result = .ok (aggregate scans) ∧
          warned run.events = warned sequential.events) ∧
      ((∃ e, .error e ∈ jobs) →
        (∃ e, .error e ∈ jobs ∧ run.result = .error e) ∧ run.finder.phase = .scanning ∧
          warned run.events = [] ∧ asked run.events = [] ∧
          ∀ sorted, run.lookUp tree sorted = run) ∧
      ((∃ e, run.result = .error e) ↔ ∃ e, sequential.result = .error e) := by
  intro jobs parallel sequential
  have atOnce : parallel.runsAtOnce sources = true := by
    simp only [Finder.runsAtOnce, Finder.isParallel, parallel, Finder.withWorkers,
      Bool.and_eq_true, decide_eq_true_eq]
    exact ⟨above, several⟩
  refine ⟨fun steps stage reached => ⟨reached.steps_le, reached.sound.next_step⟩, ?_,
    parallel.collect_mayCollect tree sources, ?_⟩
  · intro run
    constructor
    · rintro ⟨outcome, may, rfl⟩
      cases may with
      | oneByOne single => simp [atOnce] at single
      | atOnce _ reached ended => exact ⟨_, _, outcome, reached, ended, rfl⟩
    · rintro ⟨steps, stage, outcome, reached, ended, rfl⟩
      exact ⟨outcome, .atOnce atOnce reached ended, rfl⟩
  · rintro run ⟨outcome, may, rfl⟩
    have faithful : outcome.Faithful jobs := may.faithful
    have inOrder : ((finder.withWorkers 1).scanFiles tree sources).Faithful jobs :=
      ((finder.withWorkers 1).scanFiles_mayScan tree sources).faithful
    obtain ⟨agree, failTogether⟩ :=
      Finder.fold_agree parallel (finder.withWorkers 1) faithful inOrder
    refine ⟨agree, ?_, failTogether⟩
    rintro ⟨e, failed⟩
    obtain ⟨found, member, run⟩ := parallel.fold_error faithful failed
    rw [run]
    exact ⟨⟨found, member, rfl⟩, rfl, faithful.noWarning, faithful.noQuestion, fun _ => rfl⟩

/-- Two files share the key of a text. -/
def twoFiles : List Source := [
  .given ⟨Path.ofText "a.php", "<?php __('shared'); __($x);".toList, .code⟩,
  .given ⟨Path.ofText "b.php", "<?php __('own'); __('shared');".toList, .code⟩]

/-- A finder with an empty catalog. -/
def emptyFinder : Finder := .new (.keys (.memory [])) "fr" .default none []

/-- Four workers report the keys of the two files as a single one does. -/
theorem collect_everySchedule_twoFiles :
    2 ≤ twoFiles.length ∧ (1 : Int) < 4 ∧
      ∃ result, ((emptyFinder.withWorkers 4).collect .empty twoFiles).result = .ok result ∧
        ((emptyFinder.withWorkers 1).collect .empty twoFiles).result = .ok result ∧
        result.reported = [Text.ofString "shared", Text.ofString "own"] := by
  refine ⟨by decide, by decide, ?_⟩
  obtain ⟨_, _, own, every⟩ :=
    collect_everySchedule .empty twoFiles emptyFinder 4 (by decide) (by decide)
  obtain ⟨agree, _, _⟩ := every _ own
  have allOk : (emptyFinder.jobs .empty twoFiles).all (·.isOk) = true := by decide +kernel
  obtain ⟨scans, _, result, sequential, _⟩ := agree fun e member =>
    absurd (List.all_eq_true.mp allOk _ member) (by simp [Except.isOk, Except.toBool])
  refine ⟨_, result, sequential, ?_⟩
  have reported : ((emptyFinder.withWorkers 4).collect .empty twoFiles).result.toOption.map
      (·.reported) = some [Text.ofString "shared", Text.ofString "own"] := by decide +kernel
  rw [result] at reported
  exact Option.some.inj reported

end Untranslated.Scan
