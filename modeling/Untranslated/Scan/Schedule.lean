/-
This file scans files with several workers.
Jobs finish in some order, and are taken up batch by batch.
-/

import Untranslated.Scan.FileScan

namespace Untranslated.Scan

/-- The phases of a finder follow one another. -/
inductive Phase where
  | pending
  | scanning
  | aggregating
  | done
deriving DecidableEq

def Phase.name : Phase → String
  | .pending => "pending"
  | .scanning => "scanning"
  | .aggregating => "aggregating"
  | .done => "done"

/-- Progress counts the steps of a phase. A step that scans a file has its path. -/
structure Progress where
  phase : Phase
  current : Nat
  total : Nat
  path : Option Text
deriving DecidableEq

/-- What a run tells and asks while it goes on. -/
inductive Event where
  | progress (progress : Progress)
  | warning (warning : Warning)
  | record (record : Record)
  | question (key : Text)
deriving DecidableEq

abbrev Job := Except ScanError FileScan

/-- Events come also before a failure. -/
structure Outcome (A : Type) where
  events : List Event
  result : Except ScanError A

def scanned (current total : Nat) (scan : FileScan) : Event :=
  .progress ⟨.scanning, current, total, some scan.path⟩

/-- Jobs are done one after the other up to the first failure. -/
def runInOrder (total current : Nat) : List Job → Outcome (List FileScan)
  | [] => ⟨[], .ok []⟩
  | .error e :: _ => ⟨[], .error e⟩
  | .ok scan :: rest =>
    let later := runInOrder total (current + 1) rest
    ⟨.record scan.record :: scanned current total scan :: later.events,
      later.result.map (scan :: ·)⟩

/-- A pool has jobs that are not taken up yet, and the scans of the others by number. -/
structure Pool where
  pending : List Nat
  scans : List (Nat × FileScan)

def Pool.start (count : Nat) : Pool := ⟨List.range count, []⟩

def Pool.take (number : Nat) (scan : FileScan) (pool : Pool) : Pool :=
  ⟨pool.pending.erase number, pool.scans ++ [(number, scan)]⟩

def Pool.scan? (pool : Pool) (number : Nat) : Option FileScan :=
  (pool.scans.find? (·.1 = number)).map (·.2)

/-- The finished jobs of a batch are taken up in its order. The first failure ends the run. -/
def takeBatch (jobs : List Job) (pool : Pool) : List Nat → Outcome Pool
  | [] => ⟨[], .ok pool⟩
  | number :: rest =>
    match jobs[number]? with
    | some (.error e) => ⟨[], .error e⟩
    | some (.ok scan) =>
      let taken := pool.take number scan
      let later := takeBatch jobs taken rest
      ⟨scanned taken.scans.length jobs.length scan :: later.events, later.result⟩
    | none => takeBatch jobs pool rest

/-- A schedule is a row of batches. -/
abbrev Schedule := List (List Nat)

def takeBatches (jobs : List Job) (pool : Pool) : Schedule → Outcome Pool
  | [] => ⟨[], .ok pool⟩
  | batch :: rest =>
    let first := takeBatch jobs pool batch
    match first.result with
    | .error e => ⟨first.events, .error e⟩
    | .ok pool =>
      let later := takeBatches jobs pool rest
      ⟨first.events ++ later.events, later.result⟩

/-- The scans stand in the order of the files, whatever order the jobs finished in. -/
def Pool.inOrder (count : Nat) (pool : Pool) : List FileScan :=
  (List.range count).filterMap pool.scan?

def runSchedule (jobs : List Job) (schedule : Schedule) : Outcome (List FileScan) :=
  let outcome := takeBatches jobs (.start jobs.length) schedule
  ⟨outcome.events, outcome.result.map (Pool.inOrder jobs.length)⟩

/-- The schedule that takes up all jobs at once. -/
def singleBatch (jobs : List Job) : Schedule := [List.range jobs.length]

/-- A job writes a record at its end, unless it fails. -/
def recordOf? (job : Job) : Option Event := job.toOption.map fun scan => .record scan.record

def runAtOnce (jobs : List Job) : Outcome (List FileScan) :=
  let outcome := runSchedule jobs (singleBatch jobs)
  ⟨jobs.filterMap recordOf? ++ outcome.events, outcome.result⟩

end Untranslated.Scan
