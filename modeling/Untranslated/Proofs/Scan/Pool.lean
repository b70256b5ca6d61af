/-
This file gives the steps of a scan by several workers, and what every stage of it keeps.
Jobs finish in any order, and a wait for them gives any batch that it may give.
-/

import Untranslated.Scan.Finder
import Mathlib.Data.List.Perm.Subperm

namespace Untranslated.Scan

/-- What the run does that handed out the jobs. -/
inductive Activity where
  | waiting
  | taking (batch : List Nat)
  | raised (e : ScanError)
  | returned

/-- A stage has the jobs that finished so far, those that are taken up, and what was told. -/
structure Stage where
  finished : List Nat
  pool : Pool
  events : List Event
  activity : Activity

/-- Before the first job has finished. -/
def Stage.start (count : Nat) : Stage := ⟨[], .start count, [], .waiting⟩

/-- A wait gives finished jobs that are not taken up yet: all that are left, or some of which one
has failed. -/
structure Admissible (jobs : List Job) (stage : Stage) (batch : List Nat) : Prop where
  nonempty : batch ≠ []
  distinct : batch.Nodup
  pending : ∀ number ∈ batch, number ∈ stage.pool.pending
  finished : ∀ number ∈ batch, number ∈ stage.finished
  enough : (∀ number ∈ stage.pool.pending, number ∈ batch) ∨
    ∃ number ∈ batch, ∃ e, jobs[number]? = some (.error e)

/-- A job finishes, or the run that handed out the jobs goes on. -/
inductive Step (jobs : List Job) : Stage → Stage → Prop where
  | finish {stage : Stage} {number : Nat} {job : Job} (present : jobs[number]? = some job)
      (unfinished : number ∉ stage.finished) :
      Step jobs stage { stage with
        finished := number :: stage.finished
        events := stage.events ++ (recordOf? job).toList }
  | wait {stage : Stage} {batch : List Nat} (waiting : stage.activity = .waiting)
      (admissible : Admissible jobs stage batch) :
      Step jobs stage { stage with activity := .taking batch }
  | take {stage : Stage} {number : Nat} {rest : List Nat} {scan : FileScan}
      (taking : stage.activity = .taking (number :: rest))
      (done : jobs[number]? = some (.ok scan)) :
      Step jobs stage { stage with
        pool := stage.pool.take number scan
        events := stage.events ++
          [scanned (stage.pool.take number scan).scans.length jobs.length scan]
        activity := .taking rest }
  | raise {stage : Stage} {number : Nat} {rest : List Nat} {e : ScanError}
      (taking : stage.activity = .taking (number :: rest))
      (failed : jobs[number]? = some (.error e)) :
      Step jobs stage { stage with activity := .raised e }
  | resume {stage : Stage} (taking : stage.activity = .taking []) :
      Step jobs stage { stage with activity := .waiting }
  | stop {stage : Stage} (waiting : stage.activity = .waiting)
      (complete : stage.pool.pending = []) :
      Step jobs stage { stage with activity := .returned }

/-- The stages that a run reaches after so many steps. -/
inductive Reached (jobs : List Job) : Nat → Stage → Prop where
  | start : Reached jobs 0 (.start jobs.length)
  | step {steps : Nat} {stage next : Stage} (reached : Reached jobs steps stage)
      (step : Step jobs stage next) : Reached jobs (steps + 1) next

/-- What a run comes to. It has no outcome before its end. -/
def Stage.outcome? (jobs : List Job) (stage : Stage) : Option (Outcome (List FileScan)) :=
  match stage.activity with
  | .raised e => some ⟨stage.events, .error e⟩
  | .returned => some ⟨stage.events, .ok (stage.pool.inOrder jobs.length)⟩
  | _ => none

/-- The warning that an event delivers. -/
def Event.warning? : Event → Option Warning
  | .warning told => some told
  | _ => none

/-- The key that an event asks for. -/
def Event.question? : Event → Option Text
  | .question key => some key
  | _ => none

/-- The file whose scan an event tells. -/
def Event.scannedPath? : Event → Option Text
  | .progress ⟨.scanning, _, _, path⟩ => path
  | _ => none

/-- What the events of one sort tell, in order. -/
def picked {A : Type} (pick : Event → Option A) (events : List Event) : List A :=
  events.filterMap pick

/-- The warnings that are delivered. -/
abbrev warned (events : List Event) : List Warning := picked Event.warning? events

/-- The keys that the catalog is asked for. -/
abbrev asked (events : List Event) : List Text := picked Event.question? events

/-- The files whose scans are told. -/
abbrev scannedPaths (events : List Event) : List Text := picked Event.scannedPath? events

section

variable {A B : Type} {pick : Event → Option A}

@[simp] theorem picked_nil : picked pick [] = [] := rfl

@[simp] theorem picked_cons (event : Event) (events : List Event) :
    picked pick (event :: events) = (pick event).toList ++ picked pick events := by
  cases told : pick event <;> simp [picked, told]

@[simp] theorem picked_append (first second : List Event) :
    picked pick (first ++ second) = picked pick first ++ picked pick second :=
  List.filterMap_append

/-- Events of another sort tell nothing. -/
theorem picked_map_none (pick : Event → Option A) (make : B → Event)
    (silent : ∀ value, pick (make value) = none) (values : List B) :
    picked pick (values.map make) = [] := by
  induction values with
  | nil => rfl
  | cons value rest inductionHypothesis => simp [silent, inductionHypothesis]

/-- Events of this sort tell what they are made of. -/
theorem picked_map_some (pick : Event → Option A) (make : A → Event)
    (told : ∀ value, pick (make value) = some value) (values : List A) :
    picked pick (values.map make) = values := by
  induction values with
  | nil => rfl
  | cons value rest inductionHypothesis => simp [told, inductionHypothesis]

/-- The end of a job tells its record alone. -/
theorem picked_recordOf (silent : ∀ record, pick (.record record) = none) (job : Job)
    (events : List Event) : picked pick (events ++ (recordOf? job).toList) = picked pick events := by
  cases job <;> simp [recordOf?, silent, Except.toOption]

end

/-- Every job is either still pending or taken up once, with the scan of its own file. A batch
holds pending jobs only, and an error is that of a job. -/
structure Stage.Sound (jobs : List Job) (stage : Stage) : Prop where
  divided : (stage.pool.pending ++ stage.pool.scans.map (·.1)).Perm (List.range jobs.length)
  scansOwn : ∀ entry ∈ stage.pool.scans, jobs[entry.1]? = some (.ok entry.2)
  finishedOnce : stage.finished.Nodup
  finishedInside : ∀ number ∈ stage.finished, number < jobs.length
  batchPending : ∀ batch, stage.activity = .taking batch →
    batch.Nodup ∧ ∀ number ∈ batch, number ∈ stage.pool.pending
  raisedOwn : ∀ e, stage.activity = .raised e → .error e ∈ jobs
  returnedLast : stage.activity = .returned → stage.pool.pending = []
  noWarning : warned stage.events = []
  noQuestion : asked stage.events = []
  told : scannedPaths stage.events = stage.pool.scans.map (·.2.path)

section

variable {jobs : List Job} {stage next : Stage} {steps : Nat}

/-- The first stage is sound. -/
theorem Stage.start_sound : (Stage.start jobs.length).Sound jobs where
  divided := by simp [Stage.start, Pool.start]
  scansOwn := by simp [Stage.start, Pool.start]
  finishedOnce := List.nodup_nil
  finishedInside := by simp [Stage.start]
  batchPending := by simp [Stage.start]
  raisedOwn := by simp [Stage.start]
  returnedLast := by simp [Stage.start]
  noWarning := rfl
  noQuestion := rfl
  told := rfl

/-- No job is pending twice. -/
theorem Stage.Sound.pendingOnce (sound : stage.Sound jobs) : stage.pool.pending.Nodup :=
  (List.nodup_append.mp (sound.divided.nodup_iff.mpr List.nodup_range)).1

/-- A pending job is one of the jobs. -/
theorem Stage.Sound.pendingInside (sound : stage.Sound jobs) {number : Nat}
    (pending : number ∈ stage.pool.pending) : number < jobs.length :=
  List.mem_range.mp (sound.divided.mem_iff.mp (List.mem_append_left _ pending))

/-- Taking up a job moves its number from the pending ones to the scans. -/
theorem Pool.take_divided (pool : Pool) {number : Nat} (scan : FileScan)
    (pending : number ∈ pool.pending) :
    ((pool.take number scan).pending ++ (pool.take number scan).scans.map (·.1)).Perm
      (pool.pending ++ pool.scans.map (·.1)) := by
  simp only [Pool.take, List.map_append, List.map_cons, List.map_nil]
  rw [← List.append_assoc]
  refine (List.perm_append_singleton number _).trans ?_
  rw [← List.cons_append]
  exact (List.perm_cons_erase pending).symm.append_right _

/-- A step keeps a stage sound. -/
theorem Step.sound (step : Step jobs stage next) (sound : stage.Sound jobs) : next.Sound jobs := by
  cases step with
  | @finish number job present unfinished =>
      exact { sound with
        finishedOnce := List.nodup_cons.mpr ⟨unfinished, sound.finishedOnce⟩
        finishedInside := by
          intro other member
          rcases List.mem_cons.mp member with rfl | member
          · exact (List.getElem?_eq_some_iff.mp present).1
          · exact sound.finishedInside other member
        noWarning := (picked_recordOf (fun _ => rfl) job _).trans sound.noWarning
        noQuestion := (picked_recordOf (fun _ => rfl) job _).trans sound.noQuestion
        told := (picked_recordOf (fun _ => rfl) job _).trans sound.told }
  | wait waiting admissible =>
      exact { sound with
        batchPending := by
          rintro other ⟨rfl⟩
          exact ⟨admissible.distinct, admissible.pending⟩
        raisedOwn := by simp
        returnedLast := by simp }
  | @take number rest scan taking done =>
      obtain ⟨distinct, pending⟩ := sound.batchPending _ taking
      obtain ⟨absent, restDistinct⟩ := List.nodup_cons.mp distinct
      exact { sound with
        divided := (stage.pool.take_divided scan (pending number (by simp))).trans sound.divided
        scansOwn := by
          intro entry member
          rcases List.mem_append.mp member with member | member
          · exact sound.scansOwn entry member
          · rw [List.mem_singleton.mp member]
            exact done
        batchPending := by
          rintro other ⟨rfl⟩
          refine ⟨restDistinct, fun later member => ?_⟩
          -- The rest of the batch stays pending, for its numbers differ from the one taken.
          have different : later ≠ number := fun same => absent (same ▸ member)
          exact (List.mem_erase_of_ne different).mpr (pending later (List.mem_cons_of_mem _ member))
        raisedOwn := by simp
        returnedLast := by simp
        noWarning := by simp [Event.warning?, scanned, sound.noWarning]
        noQuestion := by simp [Event.question?, scanned, sound.noQuestion]
        told := by simp [Event.scannedPath?, scanned, Pool.take, sound.told] }
  | @raise number rest e taking failed =>
      exact { sound with
        batchPending := by simp
        raisedOwn := by
          rintro other ⟨rfl⟩
          exact List.mem_of_getElem? failed
        returnedLast := by simp }
  | resume taking =>
      exact { sound with
        batchPending := by simp
        raisedOwn := by simp
        returnedLast := by simp }
  | stop waiting complete =>
      exact { sound with
        batchPending := by simp
        raisedOwn := by simp
        returnedLast := fun _ => complete }

/-- Every stage of a run is sound. -/
theorem Reached.sound (reached : Reached jobs steps stage) : stage.Sound jobs := by
  induction reached with
  | start => exact Stage.start_sound
  | step _ step sound => exact step.sound sound

/-- This number of steps is left at most for the run that handed out the jobs. -/
def Activity.stepsLeft (pending : Nat) : Activity → Nat
  | .waiting => 3 * pending + 1
  | .taking batch => 3 * pending + 2 - 2 * batch.length
  | .raised _ => 0
  | .returned => 0

/-- This number of steps is left at most. -/
def Stage.stepsLeft (jobs : List Job) (stage : Stage) : Nat :=
  jobs.length - stage.finished.length + stage.activity.stepsLeft stage.pool.pending.length

/-- While a job has not finished, fewer have than there are. -/
theorem Stage.Sound.finished_length (sound : stage.Sound jobs) {number : Nat}
    (inside : number < jobs.length) (unfinished : number ∉ stage.finished) :
    stage.finished.length < jobs.length := by
  have distinct : (number :: stage.finished).Nodup :=
    List.nodup_cons.mpr ⟨unfinished, sound.finishedOnce⟩
  have contained : number :: stage.finished ⊆ List.range jobs.length := by
    intro other member
    rcases List.mem_cons.mp member with rfl | member
    · exact List.mem_range.mpr inside
    · exact List.mem_range.mpr (sound.finishedInside other member)
  have bounded := (distinct.subperm contained).length_le
  simp only [List.length_cons, List.length_range] at bounded
  exact bounded

/-- A batch has no more jobs than are pending. -/
theorem Stage.Sound.batch_length (sound : stage.Sound jobs) {batch : List Nat}
    (taking : stage.activity = .taking batch) : batch.length ≤ stage.pool.pending.length := by
  obtain ⟨distinct, pending⟩ := sound.batchPending batch taking
  exact (distinct.subperm pending).length_le

/-- Every step brings the end of the run nearer. -/
theorem Step.stepsLeft_lt (step : Step jobs stage next) (sound : stage.Sound jobs) :
    next.stepsLeft jobs < stage.stepsLeft jobs := by
  cases step with
  | finish present unfinished =>
      have inside := (List.getElem?_eq_some_iff.mp present).1
      have fewer := sound.finished_length inside unfinished
      simp only [Stage.stepsLeft, List.length_cons]
      omega
  | @wait batch waiting admissible =>
      have positive := List.length_pos_of_ne_nil admissible.nonempty
      simp only [Stage.stepsLeft, waiting, Activity.stepsLeft]
      omega
  | @take number rest scan taking done =>
      have bounded := sound.batch_length taking
      have member := (sound.batchPending _ taking).2 number (by simp)
      simp only [List.length_cons] at bounded
      simp only [Stage.stepsLeft, taking, Activity.stepsLeft, Pool.take,
        List.length_erase_of_mem member, List.length_cons]
      omega
  | raise taking failed =>
      have bounded := sound.batch_length taking
      simp only [List.length_cons] at bounded
      simp only [Stage.stepsLeft, taking, Activity.stepsLeft, List.length_cons]
      omega
  | resume taking =>
      simp only [Stage.stepsLeft, taking, Activity.stepsLeft, List.length_nil]
      omega
  | stop waiting complete =>
      simp only [Stage.stepsLeft, waiting, Activity.stepsLeft, complete, List.length_nil]
      omega

/-- A run ends after so many steps at most. -/
theorem Reached.steps_le (reached : Reached jobs steps stage) :
    steps ≤ 4 * jobs.length + 1 := by
  have spent : steps + stage.stepsLeft jobs ≤ 4 * jobs.length + 1 := by
    induction reached with
    | start =>
        simp only [Stage.stepsLeft, Stage.start, Pool.start, Activity.stepsLeft, List.length_nil,
          List.length_range]
        omega
    | step reached step bound =>
        have nearer := step.stepsLeft_lt reached.sound
        omega
  omega

/-- A run that is not at its end can go on. -/
theorem Stage.Sound.next_step (sound : stage.Sound jobs) :
    (stage.outcome? jobs).isSome ∨ ∃ next, Step jobs stage next := by
  cases doing : stage.activity with
  | raised e => exact .inl (by simp [Stage.outcome?, doing])
  | returned => exact .inl (by simp [Stage.outcome?, doing])
  | taking batch =>
      right
      cases batch with
      | nil => exact ⟨_, .resume doing⟩
      | cons number rest =>
          have inside := sound.pendingInside ((sound.batchPending _ doing).2 number (by simp))
          have present := List.getElem?_eq_getElem inside
          cases job : jobs[number] with
          | error e => exact ⟨_, .raise doing (by rw [present, job])⟩
          | ok scan => exact ⟨_, .take doing (by rw [present, job])⟩
  | waiting =>
      right
      by_cases complete : stage.pool.pending = []
      · exact ⟨_, .stop doing complete⟩
      · by_cases finished : ∀ number ∈ stage.pool.pending, number ∈ stage.finished
        · exact ⟨_, .wait doing ⟨complete, sound.pendingOnce, fun _ member => member, finished,
            .inl fun _ member => member⟩⟩
        · simp only [not_forall] at finished
          obtain ⟨number, pending, unfinished⟩ := finished
          exact ⟨_, .finish (List.getElem?_eq_getElem (sound.pendingInside pending)) unfinished⟩

/-- All numbers give all values. -/
theorem filterMap_getElem? {A : Type} (values : List A) :
    (List.range values.length).filterMap (values[·]?) = values := by
  induction values with
  | nil => rfl
  | cons a rest inductionHypothesis =>
      rw [List.length_cons, List.range_succ_eq_map, List.filterMap_cons, List.filterMap_map]
      simpa [Function.comp_def] using inductionHypothesis

/-- When no job is pending, every number has the scan of its own job. -/
theorem Stage.Sound.scan?_own (sound : stage.Sound jobs) (complete : stage.pool.pending = [])
    {number : Nat} (inside : number < jobs.length) :
    (stage.pool.scan? number).map .ok = jobs[number]? := by
  have numbers := sound.divided
  rw [complete, List.nil_append] at numbers
  have taken : number ∈ stage.pool.scans.map (·.1) :=
    numbers.mem_iff.mpr (List.mem_range.mpr inside)
  obtain ⟨entry, member, same⟩ := List.mem_map.mp taken
  have found : (stage.pool.scans.find? (·.1 = number)).isSome :=
    List.find?_isSome.mpr ⟨entry, member, by simpa using same⟩
  obtain ⟨other, first⟩ := Option.isSome_iff_exists.mp found
  have own := sound.scansOwn other (List.mem_of_find?_eq_some first)
  have number_eq : other.1 = number := by simpa using List.find?_some first
  rw [Pool.scan?, first, ← number_eq, own]
  rfl

/-- The scans of a run that returns are those of the jobs, each in its place. -/
theorem Stage.Sound.inOrder_own (sound : stage.Sound jobs) (complete : stage.pool.pending = []) :
    (stage.pool.inOrder jobs.length).map .ok = jobs := by
  rw [Pool.inOrder, List.map_filterMap]
  calc
    (List.range jobs.length).filterMap (fun number => (stage.pool.scan? number).map .ok) =
        (List.range jobs.length).filterMap (jobs[·]?) :=
      List.filterMap_congr fun _ member => sound.scan?_own complete (List.mem_range.mp member)
    _ = jobs := filterMap_getElem? jobs

/-- The scans are taken up in another order, but they are the same. -/
theorem Stage.Sound.inOrder_perm (sound : stage.Sound jobs) (complete : stage.pool.pending = []) :
    (stage.pool.scans.map (·.2)).Perm (stage.pool.inOrder jobs.length) := by
  have numbers := sound.divided
  rw [complete, List.nil_append] at numbers
  have own : (stage.pool.scans.map (·.1)).filterMap (jobs[·]?) =
      (stage.pool.scans.map (·.2)).map .ok := by
    rw [List.filterMap_map, List.map_map, ← List.filterMap_eq_map]
    exact List.filterMap_congr fun entry member => sound.scansOwn entry member
  have perm := numbers.filterMap (jobs[·]?)
  rw [own, filterMap_getElem?, ← sound.inOrder_own complete] at perm
  simpa [List.filterMap_map, Function.comp_def, Except.toOption] using
    perm.filterMap (Except.toOption (ε := ScanError))

/-- All jobs may finish in their order before the first wait. -/
theorem reached_finished (jobs : List Job) (count : Nat) (within : count ≤ jobs.length) :
    Reached jobs count
      ⟨(List.range count).reverse, .start jobs.length, (jobs.take count).filterMap recordOf?,
        .waiting⟩ := by
  induction count with
  | zero => exact .start
  | succ count inductionHypothesis =>
      have present := List.getElem?_eq_getElem (show count < jobs.length by omega)
      have finish := (inductionHypothesis (by omega)).step (.finish present (by simp))
      have numbers : (List.range (count + 1)).reverse = count :: (List.range count).reverse := by
        rw [List.range_succ, List.reverse_concat]
      have records : (jobs.take (count + 1)).filterMap recordOf? =
          (jobs.take count).filterMap recordOf? ++ (recordOf? jobs[count]).toList := by
        rw [List.take_add_one, present, List.filterMap_append]
        cases written : recordOf? jobs[count] <;> simp [written]
      rw [numbers, records]
      exact finish

/-- A batch is taken up job by job. -/
theorem reached_takeBatch (batch : List Nat) (reached : Reached jobs steps stage)
    (taking : stage.activity = .taking batch) :
    ∃ steps last, Reached jobs steps last ∧
      last.events = stage.events ++ (takeBatch jobs stage.pool batch).events ∧
      match (takeBatch jobs stage.pool batch).result with
      | .error e => last.activity = .raised e
      | .ok pool => last.activity = .taking [] ∧ last.pool = pool ∧
          pool.scans.length = stage.pool.scans.length + batch.length := by
  induction batch generalizing steps stage with
  | nil => exact ⟨steps, stage, reached, by simp [takeBatch], taking, rfl, rfl⟩
  | cons number rest inductionHypothesis =>
      have pending := (reached.sound.batchPending _ taking).2 number (by simp)
      have inside := reached.sound.pendingInside pending
      have present := List.getElem?_eq_getElem inside
      cases job : jobs[number] with
      | error e =>
          rw [job] at present
          refine ⟨_, _, reached.step (.raise taking present), ?_, ?_⟩
          · simp [takeBatch, present]
          · simp [takeBatch, present]
      | ok scan =>
          rw [job] at present
          obtain ⟨later, last, lastReached, events, result⟩ :=
            inductionHypothesis (reached.step (.take taking present)) rfl
          refine ⟨later, last, lastReached, ?_, ?_⟩
          · simp [takeBatch, present, events]
          · simp only [takeBatch, present]
            cases outcome : (takeBatch jobs (stage.pool.take number scan) rest).result with
            | error e => simpa [outcome] using result
            | ok pool =>
                simp only [outcome] at result
                obtain ⟨activity, samePool, length⟩ := result
                refine ⟨activity, samePool, ?_⟩
                rw [length]
                simp only [Pool.take, List.length_append, List.length_cons, List.length_nil]
                omega

/-- The run that takes up all jobs in one batch is one of the runs of the pool. -/
theorem reached_runAtOnce (several : jobs ≠ []) :
    ∃ steps stage, Reached jobs steps stage ∧ stage.outcome? jobs = some (runAtOnce jobs) := by
  have finished := reached_finished jobs jobs.length (Nat.le_refl _)
  rw [List.take_length] at finished
  have admissible : Admissible jobs
      ⟨(List.range jobs.length).reverse, .start jobs.length, jobs.filterMap recordOf?, .waiting⟩
      (List.range jobs.length) := {
    nonempty := by simpa using several
    distinct := List.nodup_range
    pending := fun _ member => member
    finished := fun _ member => List.mem_reverse.mpr member
    enough := .inl fun _ member => member }
  have waited := finished.step (.wait rfl admissible)
  obtain ⟨steps, last, reached, events, result⟩ := reached_takeBatch _ waited rfl
  cases outcome : takeBatch jobs (.start jobs.length) (List.range jobs.length) with
  | mk told taken =>
  rw [outcome] at events result
  cases taken with
  | error e =>
      have raised : last.activity = .raised e := result
      refine ⟨steps, last, reached, ?_⟩
      simp only [Stage.outcome?, raised, events, runAtOnce, runSchedule, singleBatch, takeBatches,
        outcome, Except.map]
  | ok pool =>
      obtain ⟨activity, rfl, length⟩ := result
      -- All numbers stand among the scans, so none is left.
      have complete : last.pool.pending = [] := by
        have total := reached.sound.divided.length_eq
        simp only [List.length_append, List.length_map, List.length_range, length, Pool.start,
          List.length_nil] at total
        exact List.length_eq_zero_iff.mp (by omega)
      refine ⟨_, _, (reached.step (.resume activity)).step (.stop rfl complete), ?_⟩
      simp only [Stage.outcome?, events, runAtOnce, runSchedule, singleBatch, takeBatches, outcome,
        Except.map, List.append_nil]

end

end Untranslated.Scan
