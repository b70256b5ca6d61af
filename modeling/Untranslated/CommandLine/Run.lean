/-
This file runs the program from its arguments to its output.
-/

import Untranslated.CommandLine.Argument
import Untranslated.CommandLine.ProgressBar
import Untranslated.Fault
import Untranslated.Json.Printer
import Untranslated.Scan.Report

namespace Untranslated.CommandLine

open Catalog (KeyCatalog)
open FileTree (Entry Path)
open Scan (Event Finder ScanResult)
open Untranslated.Configuration (ConfigError Environment Overrides Settings)

/-- What a run leaves behind: an exit code with two texts, or a fault. -/
inductive Ending where
  | usage (usage : Usage)
  | finished (exitCode : Nat) (output diagnostics : Text)
  | fault (fault : Fault)

/-- The diagnostics written so far. There is a bar only on a terminal. -/
structure Display where
  verbosity : Nat
  bar : Option ProgressBar
  written : Text

def Display.write (text : Text) (display : Display) : Display :=
  { display with written := display.written ++ text }

def Display.writeLine (text : Text) (display : Display) : Display :=
  display.write (text ++ Text.ofString "\n")

def Display.clear (display : Display) : Display :=
  match display.bar with
  | none => display
  | some bar =>
    let (text, bar) := bar.clear
    { display with bar := some bar, written := display.written ++ text }

/-- The lowest level of the records that are shown. -/
def lowestLevel : Nat → Level
  | 0 => .warning
  | 1 => .info
  | _ => .debug

/-- Warnings are shown if they are asked for. The bar makes way for them. Questions to the catalog
are not shown. -/
def Display.show (display : Display) : Event → Display
  | .record record =>
    if (lowestLevel display.verbosity).rank ≤ record.level.rank then
      display.writeLine record.text
    else display
  | .warning warning =>
    if display.verbosity = 0 then display else display.clear.writeLine warning.text
  | .progress progress =>
    match display.bar with
    | none => display
    | some bar =>
      let (text, bar) := bar.draw progress.phase progress.current progress.total
      { display with bar := some bar, written := display.written ++ text }
  | .question _ => display

def Display.showAll (events : List Event) (display : Display) : Display :=
  events.foldl Display.show display

def overridesOf (arguments : Arguments) : Overrides where
  baseLocale := arguments.baseLocale
  paths := arguments.paths
  languagePath := arguments.languagePath
  suffixes := none
  workers := arguments.jobs
  directives := none

/-- The flags go before the environment and the configuration file. -/
def settingsOf (tree : Entry) (environment : Environment) (arguments : Arguments) :
    Except ConfigError Settings := do
  let settings ← Configuration.load tree arguments.configuration environment (Path.ofText [])
  if arguments.jobs.any (· < 1) then throw .tooFewJobs
  return settings.override (overridesOf arguments)

/-- One key per line, or a JSON value. -/
def outputOf (arguments : Arguments) (result : ScanResult) : Text :=
  if arguments.json then (result.report arguments.sorted).indented ++ Text.ofString "\n"
  else (result.ordered arguments.sorted).flatMap (· ++ Text.ofString "\n")

def skipped (path : Path) : Event :=
  .record ⟨.warning, "file_finder", "Skipping missing path: " ++ path.text⟩

/-- An error is told before the bar is cleared. -/
def failed (fault : Option Fault) (message : Text) (display : Display) : Ending :=
  match fault with
  | some fault => .fault fault
  | none => .finished 2 [] (display.writeLine message).clear.written

/-- The run with settings. An unknown locale is told before any file is looked at, and links in a
circle are found before any file is read. -/
def find (tree : Entry) (arguments : Arguments) (settings : Settings) (display : Display) :
    Ending :=
  let directory := Catalog.languageDirectory tree (Path.ofText []) settings.languagePath
  let answer := (KeyCatalog.ofDirectory directory).keys tree arguments.locale
  let display := display.showAll (answer.records.map .record)
  match answer.result with
  | .error e => failed e.fault? e.message display
  | .ok _ =>
    let listing := FileTree.list tree (settings.paths.map Path.ofText) settings.suffixes
    let display := display.showAll (listing.missing.map skipped)
    if listing.circular.isSome then .fault .circularLink
    else
      let finder := Finder.new answer.catalog arguments.locale settings.targets settings.workers
        settings.directives
      let run := finder.scan tree (listing.paths.map .onDisk) arguments.sorted
      let display := display.showAll run.events
      match run.result with
      | .error e => failed e.fault? e.message display
      | .ok result => .finished 0 (outputOf arguments result) display.clear.written

/-- What is told where the locale is the base locale itself. -/
def sameLocale (locale base : Text) : Text :=
  "Locale \x60" ++ locale ++ "\x60 must be different from \x60" ++ base ++ "\x60.\n"

def run (tree : Entry) (environment : Environment) (isTerminal : Bool) (argv : List Text) :
    Ending :=
  match readArguments argv with
  | .error usage => .usage usage
  | .ok arguments =>
    match settingsOf tree environment arguments with
    | .error e => failed e.fault? e.message ⟨arguments.verbosity, none, []⟩
    | .ok settings =>
      if arguments.locale = settings.baseLocale then
        .finished 1 [] (sameLocale arguments.locale settings.baseLocale)
      else
        let hasBar := isTerminal && !arguments.noProgress && !arguments.json
        let bar := if hasBar then some (ProgressBar.new standardWidth) else none
        find tree arguments settings ⟨arguments.verbosity, bar, []⟩

end Untranslated.CommandLine
