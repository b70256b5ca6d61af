/-
This file proves which catalogs answer by the key and the locale alone, whatever was asked before.
-/

import Untranslated.Proofs.Catalog.Session

namespace Untranslated.Catalog

open FileTree (Entry Path)

/-- A question to a catalog, and the files that are on disk when it is asked. -/
structure Question where
  tree : Entry
  key : Text
  locale : Text

namespace LocaleCatalog

/-- The catalog that some questions leave. -/
def after (questions : List Question) (catalog : LocaleCatalog) : LocaleCatalog :=
  questions.foldl (fun catalog question =>
    (catalog.has question.tree question.key question.locale).catalog) catalog

/-- The answers of a catalog depend on the key and the locale alone, as long as the files are as in
one of the trees. -/
def AnswersBy (trees : List Entry) (answers : Text → Text → Except LoadError Bool)
    (catalog : LocaleCatalog) : Prop :=
  ∀ history : List Question, (∀ question ∈ history, question.tree ∈ trees) →
    ∀ tree ∈ trees, ∀ key locale, ((catalog.after history).has tree key locale).result =
      answers key locale

section

variable {trees : List Entry} {answers : Text → Text → Except LoadError Bool}
  {catalog : LocaleCatalog}

/-- Questions may be asked in two parts. -/
theorem after_append (first second : List Question) (catalog : LocaleCatalog) :
    catalog.after (first ++ second) = (catalog.after first).after second :=
  List.foldl_append

/-- A steady catalog gives its answer to every question. -/
theorem AnswersBy.has (steady : catalog.AnswersBy trees answers) {tree : Entry}
    (known : tree ∈ trees) (key locale : Text) :
    (catalog.has tree key locale).result = answers key locale :=
  steady [] (by simp) tree known key locale

/-- A steady catalog stays steady after any questions. -/
theorem AnswersBy.after (steady : catalog.AnswersBy trees answers) {history : List Question}
    (known : ∀ question ∈ history, question.tree ∈ trees) :
    (catalog.after history).AnswersBy trees answers := by
  intro later knownLater
  rw [← after_append]
  exact steady _ fun question member => (List.mem_append.mp member).elim (known _) (knownLater _)

/-- A steady catalog stays steady after one question. -/
theorem AnswersBy.next (steady : catalog.AnswersBy trees answers) {tree : Entry}
    (known : tree ∈ trees) (key locale : Text) :
    (catalog.has tree key locale).catalog.AnswersBy trees answers :=
  have asked : ∀ question ∈ [(⟨tree, key, locale⟩ : Question)], question.tree ∈ trees := by
    simpa using known
  steady.after asked

/-- A catalog that a property goes along with answers by the key and the locale alone, if the
property says what it answers. -/
theorem answersBy_of_invariant (Kept : LocaleCatalog → Prop) (start : Kept catalog)
    (next : ∀ catalog, Kept catalog → ∀ tree ∈ trees, ∀ key locale,
      Kept (catalog.has tree key locale).catalog ∧
        (catalog.has tree key locale).result = answers key locale) :
    catalog.AnswersBy trees answers := by
  intro history known tree member key locale
  suffices kept : Kept (catalog.after history) from (next _ kept tree member key locale).2
  induction history generalizing catalog with
  | nil => exact start
  | cons question rest inductionHypothesis =>
      obtain ⟨here, later⟩ := List.forall_mem_cons.mp known
      exact inductionHypothesis (next _ start _ here _ _).1 later

end

/-- A catalog of its own answers for itself. -/
theorem other_answersBy (trees : List Entry) (answers : Text → Text → Except LoadError Bool) :
    (other answers).AnswersBy trees answers := by
  refine answersBy_of_invariant (· = other answers) rfl ?_
  rintro catalog rfl tree - key locale
  exact ⟨rfl, rfl⟩

/-- A catalog in memory never changes. -/
theorem memory_answersBy (trees : List Entry) (table : KeyTable) :
    (keys (.memory table)).AnswersBy trees fun key locale =>
      ((KeyCatalog.memory table).has .empty key locale).result := by
  refine answersBy_of_invariant (· = keys (.memory table)) rfl ?_
  rintro catalog rfl tree - key locale
  cases found : table.lookup? locale <;>
    simp [LocaleCatalog.has, KeyCatalog.has, KeyCatalog.keys, Answer.map, found]

/-- A language directory whose files stay as they are answers as it would at first, though it loads
the keys of a locale only once. -/
theorem directory_answersBy (path : Path) (tree : Entry) :
    (keys (.ofDirectory path)).AnswersBy [tree] fun key locale =>
      ((KeyCatalog.ofDirectory path).has tree key locale).result := by
  -- What the catalog knows of a locale is what it would load for it.
  let Kept (catalog : LocaleCatalog) : Prop := ∃ own, catalog = .keys own ∧ ∀ locale, ∃ known,
    (Session.mk tree own).Knows path locale known ∧
      ∀ found, known = some found → (Session.new path tree).keysOf locale = .ok found
  refine answersBy_of_invariant Kept ⟨_, rfl, fun locale => ⟨none, ?_, by simp⟩⟩ ?_
  · exact Session.new_knows path locale tree
  rintro catalog ⟨own, rfl, knows⟩ here member key locale
  obtain rfl := List.mem_singleton.mp member
  have keysOf (locale : Text) : (Session.mk here own).keysOf locale =
      (Session.new path here).keysOf locale := by
    obtain ⟨known, knows, right⟩ := knows locale
    rw [knows.keysOf_eq]
    cases known with
    | none => rfl
    | some found => exact (right found rfl).symm
  refine ⟨⟨_, rfl, fun other => ?_⟩, ?_⟩
  · obtain ⟨known, knows, right⟩ := knows other
    by_cases same : locale = other
    · subst same
      have asked : (Step.has key locale).locale? = some locale := rfl
      refine ⟨_, knows.next_own asked, fun found is => ?_⟩
      rw [← keysOf]
      cases result : (Session.mk here own).keysOf locale with
      | error e => simp [result, Except.toOption] at is
      | ok keys => simpa [result, Except.toOption] using is
    · have elsewhere : (Step.has key locale).locale? ≠ some other := by
        simpa [Step.locale?] using same
      exact ⟨known, knows.next_other elsewhere, right⟩
  · exact congrArg (Except.map (·.contains key)) (keysOf locale)

end LocaleCatalog

end Untranslated.Catalog
