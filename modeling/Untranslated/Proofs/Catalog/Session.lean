/-
This file proves that a directory catalog keeps the keys of a locale from its first load on.
A load that fails leaves nothing behind, and no locale depends on what is asked about another one.
-/

import Untranslated.Proofs.Catalog.Answers

namespace Untranslated.Catalog

open FileTree (Entry Path)

/-- A catalog is asked for keys, and the files on disk may change in between. -/
inductive Step where
  | change (tree : Entry)
  | keys (locale : Text)
  | has (key locale : Text)

/-- The locale that a step asks about. -/
def Step.locale? : Step → Option Text
  | .change _ => none
  | .keys locale | .has _ locale => some locale

/-- What a step comes to: nothing for a change of files, or the answer to a question. -/
inductive Reply where
  | changed
  | keys (result : Except LoadError (List Text))
  | has (result : Except LoadError Bool)

/-- The reply is an error. -/
def Reply.IsFailure : Reply → Prop
  | .keys (.error _) | .has (.error _) => True
  | _ => False

/-- The reply to a question about a locale with these keys. -/
def Step.replyFrom (keys : Except LoadError (List Text)) : Step → Reply
  | .change _ => .changed
  | .keys _ => .keys keys
  | .has key _ => .has (keys.map (·.contains key))

/-- The files on disk, and a catalog that is asked about them. -/
structure Session where
  tree : Entry
  catalog : KeyCatalog

namespace Session

/-- A session with a catalog that has loaded nothing. -/
def new (path : Path) (tree : Entry) : Session := ⟨tree, .ofDirectory path⟩

/-- The keys that a locale has if it is asked for now. -/
def keysOf (locale : Text) (session : Session) : Except LoadError (List Text) :=
  (session.catalog.keys session.tree locale).result

/-- What a session replies to a step. -/
def reply (session : Session) : Step → Reply
  | .change _ => .changed
  | .keys locale => .keys (session.catalog.keys session.tree locale).result
  | .has key locale => .has (session.catalog.has session.tree key locale).result

/-- The session after a step. -/
def next (session : Session) : Step → Session
  | .change tree => { session with tree }
  | .keys locale => { session with catalog := (session.catalog.keys session.tree locale).catalog }
  | .has key locale =>
    { session with catalog := (session.catalog.has session.tree key locale).catalog }

/-- The session after some steps. -/
def after (session : Session) (steps : List Step) : Session := steps.foldl next session

/-- The replies to the questions about a locale, in their order. -/
def repliesAbout (locale : Text) (session : Session) : List Step → List Reply
  | [] => []
  | step :: rest =>
    let later := repliesAbout locale (session.next step) rest
    if step.locale? = some locale then session.reply step :: later else later

end Session

/-- Changes of files concern every locale, and questions concern their own. -/
def Step.concerns (locale : Text) (step : Step) : Bool :=
  step.locale?.all (· = locale)

/-- A session knows the keys of a locale if its catalog has loaded them. -/
def Session.Knows (path : Path) (locale : Text) (known : Option (List Text))
    (session : Session) : Prop :=
  ∃ loaded : KeyTable, session.catalog = .directory path loaded ∧ loaded.lookup? locale = known

section

variable {path : Path} {locale : Text} {known : Option (List Text)} {session : Session}

/-- A new session knows no locale. -/
theorem Session.new_knows (path : Path) (locale : Text) (tree : Entry) :
    (Session.new path tree).Knows path locale none :=
  ⟨[], rfl, rfl⟩

/-- An entry of another locale does not count. -/
theorem KeyTable.lookup_cons_ne (table : KeyTable) {locale other : Text} (keys : List Text)
    (different : other ≠ locale) :
    KeyTable.lookup? ((other, keys) :: table) locale = table.lookup? locale := by
  simp [lookup?, different]

/-- What is not known is read from the disk of the moment. -/
theorem Session.Knows.keysOf_eq (knows : session.Knows path locale known) :
    session.keysOf locale =
      known.elim ((Session.new path session.tree).keysOf locale) .ok := by
  obtain ⟨loaded, catalog, rfl⟩ := knows
  cases found : loaded.lookup? locale with
  | some keys => simp [keysOf, catalog, KeyCatalog.keys, found]
  | none =>
      have absent : KeyTable.lookup? [] locale = none := rfl
      simp only [keysOf, new, KeyCatalog.ofDirectory, catalog, KeyCatalog.keys, found, absent]
      cases (loadKeys session.tree path locale).run [] with
      | mk answer records => cases answer <;> rfl

/-- A question is replied to by the keys that the locale has now. -/
theorem Session.reply_eq {step : Step} (asks : step.locale? = some locale) :
    session.reply step = step.replyFrom (session.keysOf locale) := by
  cases step with
  | change tree => simp [Step.locale?] at asks
  | keys own =>
      obtain rfl : own = locale := by simpa [Step.locale?] using asks
      rfl
  | has key own =>
      obtain rfl : own = locale := by simpa [Step.locale?] using asks
      rfl

/-- Only the catalog's own question changes what is known, and both questions change it alike. -/
theorem Session.next_catalog {step : Step} {own : Text} (asks : step.locale? = some own) :
    session.next step =
      { session with catalog := (session.catalog.keys session.tree own).catalog } := by
  cases step with
  | change tree => simp [Step.locale?] at asks
  | keys other =>
      obtain rfl : other = own := by simpa [Step.locale?] using asks
      rfl
  | has key other =>
      obtain rfl : other = own := by simpa [Step.locale?] using asks
      rfl

/-- A question keeps what it has found out. -/
theorem Session.Knows.next_own (knows : session.Knows path locale known) {step : Step}
    (asks : step.locale? = some locale) :
    (session.next step).Knows path locale (session.keysOf locale).toOption := by
  obtain ⟨loaded, catalog, -⟩ := knows
  rw [Session.next_catalog asks]
  simp only [keysOf, catalog]
  cases found : loaded.lookup? locale with
  | some keys => exact ⟨loaded, by simp [KeyCatalog.keys, found], by
      simp [KeyCatalog.keys, found, Except.toOption]⟩
  | none =>
      simp only [Knows, KeyCatalog.keys, found]
      cases (loadKeys session.tree path locale).run [] with
      | mk answer records =>
      cases answer with
      | error e => exact ⟨loaded, rfl, found⟩
      | ok keys => exact ⟨_, rfl, KeyTable.lookup_cons_self loaded locale keys⟩

/-- Questions about other locales and changes of files do not touch what is known. -/
theorem Session.Knows.next_other (knows : session.Knows path locale known) {step : Step}
    (different : step.locale? ≠ some locale) : (session.next step).Knows path locale known := by
  obtain ⟨loaded, catalog, known⟩ := knows
  cases asks : step.locale? with
  | none =>
      cases step with
      | change tree => exact ⟨loaded, catalog, known⟩
      | keys own => simp [Step.locale?] at asks
      | has key own => simp [Step.locale?] at asks
  | some own =>
      have other : own ≠ locale := fun same => different (same ▸ asks)
      rw [Session.next_catalog asks]
      simp only [catalog]
      cases found : loaded.lookup? own with
      | some keys => exact ⟨loaded, by simp [KeyCatalog.keys, found], known⟩
      | none =>
          simp only [Knows, KeyCatalog.keys, found]
          cases (loadKeys session.tree path own).run [] with
          | mk answer records =>
          cases answer with
          | error e => exact ⟨loaded, rfl, known⟩
          | ok keys =>
              exact ⟨_, rfl, (KeyTable.lookup_cons_ne loaded keys other).trans known⟩

end

/-- A question that fails leaves the catalog as it was. -/
theorem KeyCatalog.keys_error {catalog : KeyCatalog} {tree : Entry} {locale : Text}
    {e : LoadError} (failed : (catalog.keys tree locale).result = .error e) :
    (catalog.keys tree locale).catalog = catalog := by
  cases catalog with
  | memory table => cases found : table.lookup? locale <;> simp [KeyCatalog.keys, found]
  | directory path loaded =>
      cases found : loaded.lookup? locale with
      | some keys => simp [KeyCatalog.keys, found]
      | none =>
          simp only [KeyCatalog.keys, found] at failed ⊢
          generalize (loadKeys tree path locale).run [] = load at failed ⊢
          obtain ⟨answer, records⟩ := load
          cases answer with
          | error e => rfl
          | ok keys => simp at failed

/-- A question that fails leaves the catalog as it is. -/
theorem Session.next_failure {session : Session} {question : Step}
    (failure : (session.reply question).IsFailure) :
    (session.next question).catalog = session.catalog := by
  cases asks : question.locale? with
  | none => cases question <;> simp_all [Step.locale?, Session.next]
  | some own =>
      rw [Session.reply_eq asks] at failure
      rw [Session.next_catalog asks]
      cases found : session.keysOf own with
      | error e => exact KeyCatalog.keys_error found
      | ok keys =>
          cases question <;> simp [found, Step.replyFrom, Reply.IsFailure, Except.map] at failure

section

variable {path : Path} {locale : Text} {session : Session}

@[simp] theorem Session.after_nil (session : Session) : session.after [] = session := rfl

@[simp] theorem Session.after_cons (session : Session) (step : Step) (rest : List Step) :
    session.after (step :: rest) = (session.next step).after rest := rfl

/-- Steps may be taken in two parts. -/
theorem Session.after_append (session : Session) (first second : List Step) :
    session.after (first ++ second) = (session.after first).after second :=
  List.foldl_append

/-- The catalog stays that of its directory. -/
theorem Session.Knows.after {known : Option (List Text)}
    (knows : session.Knows path locale known) (steps : List Step) :
    ∃ later, (session.after steps).Knows path locale later := by
  induction steps generalizing session known with
  | nil => exact ⟨known, knows⟩
  | cons step rest inductionHypothesis =>
      by_cases asks : step.locale? = some locale
      · exact inductionHypothesis (knows.next_own asks)
      · exact inductionHypothesis (knows.next_other asks)

/-- Known keys stay known, whatever happens. -/
theorem Session.Knows.after_some {keys : List Text}
    (knows : session.Knows path locale (some keys)) (steps : List Step) :
    (session.after steps).Knows path locale (some keys) := by
  induction steps generalizing session with
  | nil => exact knows
  | cons step rest inductionHypothesis =>
      by_cases asks : step.locale? = some locale
      · have next := knows.next_own asks
        rw [knows.keysOf_eq] at next
        exact inductionHypothesis next
      · exact inductionHypothesis (knows.next_other asks)

/-- Nothing is known as long as every question fails. -/
theorem Session.Knows.after_none (knows : session.Knows path locale none) {steps : List Step}
    (failing : ∀ earlier step later, steps = earlier ++ step :: later →
      step.locale? = some locale → ((session.after earlier).reply step).IsFailure) :
    (session.after steps).Knows path locale none := by
  induction steps generalizing session with
  | nil => exact knows
  | cons step rest inductionHypothesis =>
      have later (next : (session.next step).Knows path locale none) :
          ((session.next step).after rest).Knows path locale none := by
        refine inductionHypothesis next fun earlier other later split asks => ?_
        simpa using failing (step :: earlier) other later (by simp [split]) asks
      by_cases asks : step.locale? = some locale
      · have failure : (session.reply step).IsFailure := failing [] step rest rfl asks
        have next := knows.next_own asks
        rw [Session.reply_eq asks] at failure
        cases found : session.keysOf locale with
        | error e =>
            rw [found] at next
            exact later next
        | ok keys => cases step <;> simp [found, Step.replyFrom, Reply.IsFailure, Except.map] at failure
      · exact later (knows.next_other asks)

/-- Two sessions that know the same of a locale on the same files reply alike about it, though one
of them is also asked about other locales. -/
theorem Session.repliesAbout_filter {known : Option (List Text)} {alone : Session}
    (knows : session.Knows path locale known) (knowsAlone : alone.Knows path locale known)
    (sameTree : session.tree = alone.tree) (steps : List Step) :
    session.repliesAbout locale steps =
      alone.repliesAbout locale (steps.filter (Step.concerns locale)) := by
  have sameKeys {first second : Session} {known : Option (List Text)}
      (knows : first.Knows path locale known) (knowsAlone : second.Knows path locale known)
      (sameTree : first.tree = second.tree) : first.keysOf locale = second.keysOf locale := by
    rw [knows.keysOf_eq, knowsAlone.keysOf_eq, sameTree]
  induction steps generalizing session alone known with
  | nil => rfl
  | cons step rest inductionHypothesis =>
      cases asks : step.locale? with
      | none =>
          -- The files change for both sessions.
          have concerns : step.concerns locale = true := by simp [Step.concerns, asks]
          have different : step.locale? ≠ some locale := by simp [asks]
          have tree : (session.next step).tree = (alone.next step).tree := by
            cases step <;> simp_all [Step.locale?, Session.next]
          rw [List.filter_cons_of_pos concerns]
          simp only [repliesAbout, asks, reduceCtorEq, if_false]
          exact inductionHypothesis (knows.next_other different) (knowsAlone.next_other different)
            tree
      | some own =>
          have tree (first : Session) : (first.next step).tree = first.tree := by
            rw [Session.next_catalog asks]
          by_cases same : own = locale
          · have concerns : step.concerns locale = true := by simp [Step.concerns, asks, same]
            have about : step.locale? = some locale := by rw [asks, same]
            have keys := sameKeys knows knowsAlone sameTree
            have nextAlone := knowsAlone.next_own about
            rw [← keys] at nextAlone
            rw [List.filter_cons_of_pos concerns]
            simp only [repliesAbout, about, if_true, Session.reply_eq about, keys]
            rw [inductionHypothesis (knows.next_own about) nextAlone (by rw [tree, tree, sameTree])]
          · -- The other session is not asked at all.
            have concerns : ¬ step.concerns locale = true := by simp [Step.concerns, asks, same]
            have different : step.locale? ≠ some locale := by simp [asks, same]
            rw [List.filter_cons_of_neg concerns]
            simp only [repliesAbout, different, if_false]
            exact inductionHypothesis (knows.next_other different) knowsAlone
              ((tree session).trans sameTree)

end

/-- A session remembers a locale. The first keys it finds stay, whatever happens to the files. Until
then every question reads the disk of its moment, and a failure changes nothing. Other locales do
not count. -/
structure Session.Remembers (start : Session) (path : Path) (locale : Text) : Prop where
  stable : ∀ before step later question keys,
    step.locale? = some locale → (start.after before).keysOf locale = .ok keys →
    question.locale? = some locale →
    (start.after (before ++ step :: later)).reply question = question.replyFrom (.ok keys)
  untouched : ∀ before question, ((start.after before).reply question).IsFailure →
    (start.after (before ++ [question])).catalog = (start.after before).catalog
  fresh : ∀ before question, question.locale? = some locale →
    (∀ earlier step later, before = earlier ++ step :: later → step.locale? = some locale →
      ((start.after earlier).reply step).IsFailure) →
    (start.after before).reply question =
      question.replyFrom ((Session.new path (start.after before).tree).keysOf locale)
  separate : ∀ steps, start.repliesAbout locale steps =
    start.repliesAbout locale (steps.filter (Step.concerns locale))

/-- This holds of every run of a directory catalog and of every locale. -/
theorem session_remembers (path : Path) (tree : Entry) (locale : Text) :
    (Session.new path tree).Remembers path locale := by
  have start := Session.new_knows path locale tree
  refine ⟨?_, ?_, ?_, ?_⟩
  · intro before step later question keys asked success asks
    obtain ⟨known, knows⟩ := start.after before
    have found := knows.next_own asked
    rw [success] at found
    rw [Session.reply_eq asks, Session.after_append, Session.after_cons,
      (Session.Knows.after_some found later).keysOf_eq]
    rfl
  · intro before question failure
    rw [Session.after_append]
    exact Session.next_failure failure
  · intro before question asks failing
    rw [Session.reply_eq asks, (start.after_none failing).keysOf_eq]
    rfl
  · exact Session.repliesAbout_filter start start rfl

end Untranslated.Catalog
