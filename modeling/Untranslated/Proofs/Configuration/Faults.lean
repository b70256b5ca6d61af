/-
This file proves which configuration files end the program with a fault, and that every other one
gives settings or an error that is reported, whatever the environment.
-/

import Untranslated.Fault
import Untranslated.Proofs.Json.Oversized
import Untranslated.Proofs.Results

namespace Untranslated.Configuration

open FileTree (Entry Path ReadError)
open Json (LongInteger Value)
open Utf8 (Bytes DecodeError)

/-- The fault that reading a configuration ends in. An error that is reported is none. -/
def faultOf? {A : Type} : Except ConfigError A → Option Fault
  | .ok _ => none
  | .error e => e.fault?

section

variable {A B : Type} {fault : Fault}

/-- A row of readings ends in the fault of the first that does not succeed. -/
theorem faultOf?_bind {first : Except ConfigError A} {next : A → Except ConfigError B} :
    faultOf? (first >>= next) = some fault ↔
      faultOf? first = some fault ∨ ∃ a, first = .ok a ∧ faultOf? (next a) = some fault := by
  cases first with
  | error e => simp [bind, Except.bind, faultOf?]
  | ok a => simp [bind, Except.bind, faultOf?]

@[simp]
theorem faultOf?_ok (a : A) : faultOf? (.ok a) = none := rfl

/-- A change of the result does not change the fault. -/
@[simp]
theorem faultOf?_map (result : Except ConfigError A) (f : A → B) :
    faultOf? (result.map f) = faultOf? result := by
  cases result <;> rfl

end

/-- A text that is missing or empty is reported. -/
@[simp]
theorem nonEmptyText_reported (value : Value) : faultOf? (nonEmptyText value) = none := by
  unfold nonEmptyText
  split <;> rfl

/-- A list that is none is reported. -/
@[simp]
theorem texts_reported (name : Text) (value : Value) : faultOf? (texts name value) = none := by
  unfold texts
  split
  · rfl
  · split <;> rfl
  · rfl

/-- Targets of the wrong form are reported. -/
@[simp]
theorem targetsOf_reported (value : Value) : faultOf? (targetsOf value) = none := by
  unfold targetsOf
  split
  · split <;> rfl
  · rfl

/-- Only an infinite number of workers is a fault. -/
theorem workerCount_fault {name : Text} {value : Value} {fault : Fault} :
    faultOf? (workerCount name value) = some fault ↔
      fault = .overflow ∧ ∃ negative, value = .real (.infinite negative) := by
  have count (n : Int) :
      faultOf? (if n < 1 then throw (.tooFewWorkers name n) else pure n) = none := by
    split <;> rfl
  have counted : faultOf? (workerCount name value) = faultOf? (integerOf name value) := by
    rw [workerCount]
    cases integerOf name value with
    | error e => rfl
    | ok n => exact count n
  rw [counted]
  cases value with
  | real x =>
      cases x with
      | infinite negative => simp [integerOf, faultOf?, ConfigError.fault?, eq_comm]
      | finite negative mantissa exponent => simp [integerOf, faultOf?, Decimal.Binary64.truncate?]
      | notANumber => simp [integerOf, faultOf?, ConfigError.fault?, Decimal.Binary64.truncate?]
  | string t =>
      cases read : Text.integer? t <;> simp [integerOf, faultOf?, ConfigError.fault?, read]
  | _ => simp [integerOf, faultOf?, ConfigError.fault?]

/-- A text is accepted just when it is not empty. -/
theorem nonEmptyText_ok {value : Value} :
    (∃ t, nonEmptyText value = .ok t) ↔ ∃ c rest, value = .string (c :: rest) := by
  unfold nonEmptyText
  split <;> simp_all

/-- A text, or a list of texts. -/
inductive IsTexts : Value → Prop where
  | one (t : Text) : IsTexts (.string t)
  | many (ts : List Text) : IsTexts (.array (ts.map .string))

/-- A value is a text only as a string. -/
theorem textOf?_some {value : Value} {t : Text} : textOf? value = some t ↔ value = .string t := by
  unfold textOf?
  split <;> simp_all

/-- Values are texts all together just when they are strings. -/
theorem mapM_textOf? {items : List Value} {ts : List Text} :
    items.mapM textOf? = some ts ↔ items = ts.map .string := by
  induction items generalizing ts with
  | nil => cases ts <;> simp
  | cons first rest inductionHypothesis =>
      cases ts <;>
        simp [List.mapM_cons, Option.bind_eq_some_iff, textOf?_some, inductionHypothesis]

/-- Texts are accepted as one text or as a list of texts. -/
theorem texts_ok {name : Text} {value : Value} :
    (∃ ts, texts name value = .ok ts) ↔ IsTexts value := by
  unfold texts
  split
  · exact ⟨fun _ => .one _, fun _ => ⟨_, rfl⟩⟩
  · next items =>
    constructor
    · rintro ⟨ts, is⟩
      split at is
      · next read =>
        rw [mapM_textOf?.mp read]
        exact .many _
      · cases is
    · rintro (_ | ts)
      rw [mapM_textOf?.mpr rfl]
      exact ⟨_, rfl⟩
  · next notText notList =>
    constructor
    · rintro ⟨ts, is⟩
      cases is
    · rintro (t | ts)
      · exact absurd rfl (notText t)
      · exact absurd rfl (notList _)

section

variable {A : Type} {members : List (Text × Value)} {name : Text} {old : A}
  {read : Value → Except ConfigError A}

/-- An entry faults just when it is there and its value faults. -/
theorem entry_fault {fault : Fault} :
    faultOf? (entry members name old read) = some fault ↔
      ∃ value, Value.lookup? members name = some value ∧ faultOf? (read value) = some fault := by
  unfold entry
  split <;> simp_all [faultOf?]

/-- An entry is accepted if its value is, and also if it is missing. -/
theorem entry_ok :
    (∃ a, entry members name old read = .ok a) ↔
      ∀ value, Value.lookup? members name = some value → ∃ a, read value = .ok a := by
  unfold entry
  split <;> simp_all

end

/-- The entries that are read before the number of workers are right. -/
structure ReachesWorkers (members : List (Text × Value)) : Prop where
  locale : ∀ value, Value.lookup? members "locale" = some value →
    ∃ c rest, value = .string (c :: rest)
  paths : ∀ value, Value.lookup? members "paths" = some value → IsTexts value
  suffixes : ∀ value, Value.lookup? members "extensions" = some value → IsTexts value

/-- The entries of a configuration end in a fault only for an infinite number of workers. -/
theorem update_fault {settings : Settings} {members : List (Text × Value)} {fault : Fault} :
    faultOf? (settings.update members) = some fault ↔
      fault = .overflow ∧ ReachesWorkers members ∧
        ∃ negative, Value.lookup? members "max_workers" = some (.real (.infinite negative)) := by
  have right : (∃ locale, entry members "locale" settings.baseLocale nonEmptyText = .ok locale) ∧
      (∃ paths, entry members "paths" settings.paths (texts "paths") = .ok paths) ∧
      (∃ suffixes, entry members "extensions" settings.suffixes (fun value =>
        (texts "extensions" value).map (·.map withoutStars)) = .ok suffixes) ↔
      ReachesWorkers members := by
    simp only [entry_ok, nonEmptyText_ok, map_eq_ok, texts_ok]
    exact ⟨fun ⟨locale, paths, suffixes⟩ => ⟨locale, paths, suffixes⟩,
      fun ⟨locale, paths, suffixes⟩ => ⟨locale, paths, suffixes⟩⟩
  have language : ∃ path, entry members "lang_path" settings.languagePath
      (fun value => .ok (some value.bare)) = .ok path := by
    simp [entry_ok]
  unfold Settings.update
  simp only [faultOf?_bind, entry_fault, nonEmptyText_reported, texts_reported, faultOf?_ok,
    faultOf?_map, targetsOf_reported, workerCount_fault, pure, Except.pure, reduceCtorEq,
    and_false, exists_false, false_or, or_false]
  rw [← right]
  constructor
  · rintro ⟨locale, isLocale, paths, isPaths, -, -, suffixes, isSuffixes, value, found, rfl,
      negative, rfl⟩
    exact ⟨rfl, ⟨⟨locale, isLocale⟩, ⟨paths, isPaths⟩, suffixes, isSuffixes⟩, negative, found⟩
  · rintro ⟨rfl, ⟨⟨locale, isLocale⟩, ⟨paths, isPaths⟩, suffixes, isSuffixes⟩, negative, found⟩
    obtain ⟨path, isPath⟩ := language
    exact ⟨locale, isLocale, paths, isPaths, path, isPath, suffixes, isSuffixes, _, found, rfl,
      negative, rfl⟩

/-- The configuration file that settings are loaded from. -/
def configurationPath? (tree : Entry) (given : Option Text) (directory : Path) : Option Path :=
  match given with
  | some path => some (Path.ofText path)
  | none =>
    let standard := directory.append (Path.ofText configurationName)
    if FileTree.isFile tree standard then some standard else none

/-- A configuration file faults in three ways. It is not in its encoding, it has an integer that is
too long, or its number of workers is infinite and no entry before it is wrong. -/
inductive FileFault (tree : Entry) (path : Path) : Fault → Prop where
  | undecodable {bytes : Bytes} {e : DecodeError}
      (read : FileTree.readBytes tree path = .ok bytes) (undecodable : Utf8.decode bytes = .error e) :
      FileFault tree path .encoding
  | longInteger {source : List Char} {e : Json.ParseError}
      (read : FileTree.readText tree .utf8 path = .ok source)
      (refused : Json.parse source = .error e) (cause : e.cause = .integerTooLong)
      (stands : LongInteger source e.position) : FileFault tree path .value
  | infinite {source : List Char} {members : List (Text × Value)} {negative : Bool}
      (read : FileTree.readText tree .utf8 path = .ok source)
      (parsed : Json.parse source = .ok (.object members)) (earlier : ReachesWorkers members)
      (workers : Value.lookup? members "max_workers" = some (.real (.infinite negative))) :
      FileFault tree path .overflow

/-- Bytes that cannot be read meet an obstacle. -/
theorem readBytes_error {tree : Entry} {path : Path} {e : ReadError}
    (failed : FileTree.readBytes tree path = .error e) : ∃ cause, e = .obstacle cause path := by
  rw [FileTree.readBytes] at failed
  repeat' split at failed
  all_goals cases failed
  all_goals exact ⟨_, rfl⟩

/-- A text is not in its encoding just when its bytes cannot be decoded. -/
theorem readText_undecodable {tree : Entry} {path : Path} {e : DecodeError} :
    FileTree.readText tree .utf8 path = .error (.undecodable e) ↔
      ∃ bytes, FileTree.readBytes tree path = .ok bytes ∧ Utf8.decode bytes = .error e := by
  rw [FileTree.readText]
  cases read : FileTree.readBytes tree path with
  | error own =>
      obtain ⟨cause, rfl⟩ := readBytes_error read
      simp [bind, Except.bind]
  | ok bytes =>
      simp only [bind, Except.bind, FileTree.Encoding.decode, Except.ok.injEq, exists_eq_left']
      cases Utf8.decode bytes <;> simp [throw, throwThe, MonadExceptOf.throw, pure, Except.pure]

/-- A file that is read with a fault has one of the three. -/
theorem configuration_fault {tree : Entry} {path : Path} {fault : Fault}
    (faults : faultOf? (configuration tree path) = some fault) : FileFault tree path fault := by
  rw [configuration] at faults
  split at faults
  · next e text =>
    cases e with
    | obstacle cause own => cases faults
    | undecodable e =>
        obtain ⟨bytes, read, undecodable⟩ := readText_undecodable.mp text
        cases faults
        exact .undecodable read undecodable
  · next source text =>
    split at faults
    · cases faults
    · cases faults
    · next e refused =>
      split at faults
      · next cause =>
        cases faults
        exact .longInteger text refused cause (Json.parse_longInteger refused cause)
      · cases faults

/-- A file ends in a fault in these ways only. -/
theorem fileFault_iff {tree : Entry} {path : Path} {settings : Settings} {fault : Fault} :
    faultOf? (configuration tree path >>= settings.update) = some fault ↔
      FileFault tree path fault := by
  rw [faultOf?_bind]
  constructor
  · rintro (faults | ⟨members, read, faults⟩)
    · exact configuration_fault faults
    · obtain ⟨rfl, earlier, negative, workers⟩ := update_fault.mp faults
      rw [configuration] at read
      split at read
      · cases read
      · next source text =>
        split at read
        · next found parsed =>
          cases read
          exact .infinite text parsed earlier workers
        · cases read
        · split at read <;> cases read
  · rintro (⟨read, undecodable⟩ | ⟨read, refused, cause, stands⟩ | ⟨read, parsed, earlier, workers⟩)
    · have text := readText_undecodable.mpr ⟨_, read, undecodable⟩
      exact .inl (by rw [configuration, text]; rfl)
    · exact .inl (by simp [configuration, read, refused, cause, faultOf?, ConfigError.fault?])
    · refine .inr ⟨_, ?_, update_fault.mpr ⟨rfl, earlier, _, workers⟩⟩
      simp [configuration, read, parsed]

/-- The environment never faults. -/
theorem environmentOverrides_reported (environment : Environment) :
    faultOf? (environmentOverrides environment) = none := by
  rw [Option.eq_none_iff_forall_ne_some]
  intro fault faults
  rw [environmentOverrides, faultOf?_bind] at faults
  rcases faults with faults | ⟨workers, -, faults⟩
  · cases found : environment.lookup? workersVariable with
    | none => simp [found, pure, Except.pure] at faults
    | some value =>
        rw [found] at faults
        have counted : faultOf? ((workerCount workersVariable (.string value)).map some) =
          some fault := faults
        simp [workerCount_fault] at counted
  · cases faults

/-- Loading settings ends in a fault exactly if the configuration file does. In every other case
there are settings or an error that is reported, whatever the environment and the directory. -/
theorem load_fault_iff (tree : Entry) (given : Option Text) (environment : Environment)
    (directory : Path) (fault : Fault) :
    faultOf? (load tree given environment directory) = some fault ↔
      ∃ path, configurationPath? tree given directory = some path ∧ FileFault tree path fault := by
  have file : faultOf? (load tree given environment directory) = some fault ↔
      faultOf? (fileSettings tree given directory) = some fault := by
    rw [load, faultOf?_bind]
    simp [faultOf?_bind, environmentOverrides_reported, pure, Except.pure]
  rw [file]
  unfold fileSettings configurationPath?
  cases given with
  | some path => simpa using fileFault_iff
  | none =>
      dsimp only
      split
      · simpa using fileFault_iff
      · simp [pure, Except.pure]

/-- The text of this configuration file is in another encoding. -/
def latinConfiguration : Entry :=
  .directory [("lost-in-translation.json", .file (Utf8.encode "\x7b\"locale\":\"".toList ++
    [0xE9] ++ Utf8.encode "\"\x7d".toList))]

/-- Not every malformed configuration is reported. -/
theorem load_fault_undecodable :
    ¬∀ tree given environment directory, faultOf? (load tree given environment directory) = none :=
  fun reported => by
    have fault : faultOf? (load latinConfiguration none [] (Path.ofText ".")) =
      some .encoding := by decide +kernel
    rw [reported] at fault
    cases fault

end Untranslated.Configuration
