/-
This file proves that a load gives the keys of the files it reads, and fails if one of them does.
What is reported along the way does not count.
-/

import Untranslated.Catalog.Lookup
import Untranslated.Proofs.FileTree.Listing

namespace Untranslated.Catalog

open FileTree (Entry Path)
open Json (Value)

/-- A load has a result that does not depend on what was reported before. -/
def Load.Gives {A : Type} (load : Load A) (result : Except LoadError A) : Prop :=
  ∀ records, (load.run records).1 = result

section

variable {A B : Type}

theorem Load.gives_pure (value : A) : Load.Gives (pure value) (.ok value) := fun _ => rfl

theorem Load.gives_throw (e : LoadError) : Load.Gives (throw e : Load A) (.error e) := fun _ => rfl

/-- An attempt gives its result and reports nothing. -/
theorem Load.gives_attempt (result : Except LoadError A) : Load.Gives (attempt result) result := by
  cases result with
  | ok value => exact gives_pure value
  | error e => exact gives_throw e

/-- Loads one after the other give what their results lead to. -/
theorem Load.gives_bind {load : Load A} {next : A → Load B} {result : Except LoadError A}
    {later : A → Except LoadError B} (first : load.Gives result)
    (second : ∀ value, (next value).Gives (later value)) :
    Load.Gives (load >>= next) (result >>= later) := by
  intro records
  have given := first records
  change (ExceptT.bindCont next (load.run records).1 (load.run records).2).1 = _
  rw [given]
  cases result with
  | error e => rfl
  | ok value => exact second value _

/-- Reports have no result of their own. -/
theorem Load.gives_reports (records : List Record) :
    Load.Gives (records.forM report) (.ok ()) := by
  induction records with
  | nil => exact gives_pure ()
  | cons record rest inductionHypothesis =>
      have told : Load.Gives (report record) (.ok ()) := fun _ => rfl
      exact gives_bind told fun _ => inductionHypothesis

/-- Loads in a row give their results in a row. -/
theorem Load.gives_mapM {item : A → Load B} {result : A → Except LoadError B}
    (each : ∀ value, (item value).Gives (result value)) (values : List A) :
    Load.Gives (values.mapM item) (values.mapM result) := by
  induction values with
  | nil => exact gives_pure []
  | cons value rest inductionHypothesis =>
      rw [List.mapM_cons, List.mapM_cons]
      exact gives_bind (each value) fun _ => gives_bind inductionHypothesis fun _ => gives_pure _

end

/-- A file that defines keys: one of names in JSON, or one of code for a group. -/
inductive LanguageFile where
  | names (path : Path)
  | group (name : Text) (path : Path)

/-- The path of the file. -/
def LanguageFile.path : LanguageFile → Path
  | .names path | .group _ path => path

/-- A file can be read and is valid, and these are the keys that it defines. A group is a key
itself. -/
inductive LanguageFile.Defines (tree : Entry) : LanguageFile → List Text → Prop where
  | names {path : Path} {text : List Char} {members : List (Text × Value)}
      (read : FileTree.readText tree .utf8 path = .ok text)
      (valid : Json.parse text = .ok (.object members)) :
      Defines tree (.names path) (members.map (·.1))
  | group {name : Text} {path : Path} {text : List Char} {keys : List Text} {records : List Record}
      (read : FileTree.readText tree .utf8 path = .ok text)
      (valid : codeKeys text (some path.text) = .ok (keys, records)) :
      Defines tree (.group name path) (name :: keys.map (name ++ "." ++ ·))

/-- A load takes the keys of files together. It fails if one of the files is unreadable or
invalid, and only then. -/
structure Collects (tree : Entry) (result : Except LoadError (List Text))
    (Wanted : LanguageFile → Prop) : Prop where
  whole : (∃ keys, result = .ok keys) ↔ ∀ file, Wanted file → ∃ own, file.Defines tree own
  union : ∀ keys, result = .ok keys → ∀ key, key ∈ keys ↔
    ∃ file own, Wanted file ∧ file.Defines tree own ∧ key ∈ own

section

variable {tree : Entry} {result other : Except LoadError (List Text)}
  {Wanted Others : LanguageFile → Prop}

/-- The wanted files may be told in another way. -/
theorem Collects.congr (collects : Collects tree result Wanted)
    (same : ∀ file, Wanted file ↔ Others file) : Collects tree result Others := by
  constructor
  · simpa only [same] using collects.whole
  · simpa only [same] using collects.union

theorem Collects.none : Collects tree (.ok []) fun _ => False :=
  ⟨by simp, by simp⟩

/-- A single file, whose keys are told by its definition. -/
theorem Collects.one {file : LanguageFile}
    (own : ∀ keys, result = .ok keys ↔ file.Defines tree keys) :
    Collects tree result (· = file) := by
  constructor
  · simp [own]
  · intro keys success key
    have defined := (own keys).mp success
    constructor
    · exact fun member => ⟨file, keys, rfl, defined, member⟩
    · rintro ⟨_, others, rfl, again, member⟩
      have same := success.symm.trans ((own others).mpr again)
      exact Except.ok.inj same ▸ member

/-- Two loads take the keys of their files together. -/
theorem Collects.append (first : Collects tree result Wanted)
    (second : Collects tree other Others) :
    Collects tree (do return (← result) ++ (← other)) fun file => Wanted file ∨ Others file := by
  have wholeFirst := first.whole
  have wholeSecond := second.whole
  constructor
  · simp only [or_imp, forall_and, ← wholeFirst, ← wholeSecond]
    cases result <;> cases other <;> simp [bind, Except.bind, pure, Except.pure]
  · intro keys success key
    cases result with
    | error e => simp [bind, Except.bind] at success
    | ok before =>
        cases other with
        | error e => simp [bind, Except.bind] at success
        | ok after =>
            obtain rfl : before ++ after = keys := Except.ok.inj success
            simp only [List.mem_append, first.union before rfl, second.union after rfl, or_and_right,
              exists_or]

/-- Loads in a row take the keys of all their files together. -/
theorem Collects.mapM {A : Type} {results : A → Except LoadError (List Text)}
    {Each : A → LanguageFile → Prop} (values : List A)
    (each : ∀ value ∈ values, Collects tree (results value) (Each value)) :
    Collects tree (do return (← values.mapM results).flatten)
      fun file => ∃ value ∈ values, Each value file := by
  induction values with
  | nil => exact Collects.none.congr (by simp)
  | cons value rest inductionHypothesis =>
      have later := inductionHypothesis fun other member => each other (List.mem_cons_of_mem _ member)
      have both := (each value List.mem_cons_self).append later
      have split : (do return (← (value :: rest).mapM results).flatten) =
          (do return (← results value) ++ (← (do return (← rest.mapM results).flatten))) := by
        rw [List.mapM_cons]
        cases results value with
        | error e => rfl
        | ok keys => cases rest.mapM results <;> rfl
      rw [split]
      exact both.congr (by simp [or_and_right, exists_or])

end

/-- A file is read just when its text is. -/
theorem readFile_eq_ok {tree : Entry} {path : Path} {text : List Char} :
    readFile tree path = .ok text ↔ FileTree.readText tree .utf8 path = .ok text := by
  unfold readFile
  cases FileTree.readText tree .utf8 path <;> simp

/-- The keys of a file of names are those that it defines. -/
theorem jsonKeys_eq_ok {tree : Entry} {path : Path} {keys : List Text} :
    jsonKeys tree path = .ok keys ↔ (LanguageFile.names path).Defines tree keys := by
  unfold jsonKeys
  constructor
  · intro success
    cases read : readFile tree path with
    | error e => simp [read, bind, Except.bind] at success
    | ok text =>
        simp only [read, bind, Except.bind] at success
        split at success
        · rename_i members valid
          obtain rfl := Except.ok.inj success
          exact .names (readFile_eq_ok.mp read) valid
        · simp [throw, throwThe, MonadExceptOf.throw] at success
        · split at success <;> simp [throw, throwThe, MonadExceptOf.throw] at success
  · intro defined
    cases defined with
    | names read valid => simp [readFile_eq_ok.mpr read, bind, Except.bind, valid, pure, Except.pure]

/-- The load of a file of names collects this file. -/
theorem jsonKeys_collects (tree : Entry) (path : Path) :
    Collects tree (jsonKeys tree path) (· = .names path) :=
  Collects.one fun _ => jsonKeys_eq_ok

/-- The keys of a group without what is reported. -/
def groupResult (tree : Entry) (group : Text) (file : Path) : Except LoadError (List Text) := do
  let source ← readFile tree file
  match codeKeys source (some file.text) with
  | .error (.inl e) => throw (.invalidCode file e)
  | .error (.inr e) => throw (.key e)
  | .ok (keys, _) => return group :: keys.map (group ++ "." ++ ·)

/-- The load of a group gives its keys, whatever it reports. -/
theorem groupKeys_gives (tree : Entry) (group : Text) (file : Path) :
    (groupKeys tree group file).Gives (groupResult tree group file) := by
  refine Load.gives_bind (Load.gives_attempt _) fun source => ?_
  cases codeKeys source (some file.text) with
  | error e =>
      cases e with
      | inl e => exact Load.gives_throw _
      | inr e => exact Load.gives_throw _
  | ok answer => exact Load.gives_bind (Load.gives_reports _) fun _ => Load.gives_pure _

/-- The keys of a group are those that its file defines. -/
theorem groupResult_eq_ok {tree : Entry} {group : Text} {file : Path} {keys : List Text} :
    groupResult tree group file = .ok keys ↔ (LanguageFile.group group file).Defines tree keys := by
  unfold groupResult
  constructor
  · intro success
    cases read : readFile tree file with
    | error e => simp [read, bind, Except.bind] at success
    | ok text =>
        simp only [read, bind, Except.bind] at success
        split at success
        · simp [throw, throwThe, MonadExceptOf.throw] at success
        · simp [throw, throwThe, MonadExceptOf.throw] at success
        · rename_i own records valid
          obtain rfl := Except.ok.inj success
          exact .group (readFile_eq_ok.mp read) valid
  · intro defined
    cases defined with
    | group read valid => simp [readFile_eq_ok.mpr read, bind, Except.bind, valid, pure, Except.pure]

/-- The load of a group collects its file. -/
theorem groupResult_collects (tree : Entry) (group : Text) (file : Path) :
    Collects tree (groupResult tree group file) (· = .group group file) :=
  Collects.one fun _ => groupResult_eq_ok

end Untranslated.Catalog
