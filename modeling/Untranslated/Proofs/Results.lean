/-
This file collects the laws of computations that may fail, and of rows of them.
-/

import Mathlib.Data.List.Forall2
import Mathlib.Data.List.ReduceOption

namespace Untranslated

section

variable {A B E : Type}

/-- Two steps succeed just when both do. -/
theorem bind_eq_ok {result : Except E A} {next : A → Except E B} {value : B} :
    (result >>= next) = .ok value ↔ ∃ first, result = .ok first ∧ next first = .ok value := by
  cases result <;> simp [bind, Except.bind]

/-- Two steps fail with the first, or with the second behind a first that succeeds. -/
theorem bind_eq_error {result : Except E A} {next : A → Except E B} {e : E} :
    (result >>= next) = .error e ↔
      result = .error e ∨ ∃ first, result = .ok first ∧ next first = .error e := by
  cases result <;> simp [bind, Except.bind]

theorem map_eq_ok {result : Except E A} {f : A → B} :
    (∃ value, result.map f = .ok value) ↔ ∃ value, result = .ok value := by
  cases result <;> simp [Except.map]

theorem map_ok_iff {result : Except E A} {f : A → B} {value : B} :
    result.map f = .ok value ↔ ∃ own, result = .ok own ∧ f own = value := by
  cases result <;> simp [Except.map]

theorem map_eq_error {result : Except E A} {f : A → B} {e : E} :
    result.map f = .error e ↔ result = .error e := by
  cases result <;> simp [Except.map]

/-- What is seen of a result is seen of its value. -/
theorem ok_of_toOption {result : Except E A} {view : A → B} {value : B}
    (told : result.toOption.map view = some value) : ∃ a, result = .ok a ∧ view a = value := by
  cases result with
  | error e => cases told
  | ok a => exact ⟨a, rfl, Option.some.inj told⟩

/-- A change of the error does not change the value. -/
theorem mapError_ok {F : Type} {result : Except E A} {f : E → F} {value : A}
    (success : result.mapError f = .ok value) : result = .ok value := by
  cases result with
  | error e => cases success
  | ok a =>
      cases success
      rfl

/-- The first of the values that fails does so with this error. -/
def FailsFirst (f : A → Except E B) (values : List A) (e : E) : Prop :=
  ∃ before value after, values = before ++ value :: after ∧
    (∀ earlier ∈ before, ∃ result, f earlier = .ok result) ∧ f value = .error e

/-- The first failure in a row is that of the first value, or it comes later. -/
theorem failsFirst_cons {f : A → Except E B} {first : A} {rest : List A} {e : E} :
    FailsFirst f (first :: rest) e ↔
      f first = .error e ∨ ∃ result, f first = .ok result ∧ FailsFirst f rest e := by
  constructor
  · rintro ⟨_ | ⟨earlier, before⟩, value, after, joined, sound, failed⟩
    · obtain ⟨rfl, -⟩ := List.cons.inj joined
      exact .inl failed
    · obtain ⟨rfl, rfl⟩ := List.cons.inj joined
      obtain ⟨⟨result, here⟩, others⟩ := List.forall_mem_cons.mp sound
      exact .inr ⟨result, here, before, value, after, rfl, others, failed⟩
  · rintro (failed | ⟨result, here, before, value, after, rfl, sound, failed⟩)
    · exact ⟨[], first, rest, rfl, by simp, failed⟩
    · exact ⟨first :: before, value, after, rfl,
        List.forall_mem_cons.mpr ⟨⟨result, here⟩, sound⟩, failed⟩

/-- A row fails just with its first failure. -/
theorem mapM_eq_error {f : A → Except E B} {values : List A} {e : E} :
    values.mapM f = .error e ↔ FailsFirst f values e := by
  induction values with
  | nil => simp [FailsFirst, pure, Except.pure]
  | cons first rest inductionHypothesis =>
      rw [List.mapM_cons, failsFirst_cons, bind_eq_error]
      refine or_congr_right (exists_congr fun result => and_congr_right fun _ => ?_)
      rw [bind_eq_error, inductionHypothesis]
      simp [pure, Except.pure]

/-- A row succeeds just when each of its values does. -/
theorem mapM_eq_ok {f : A → Except E B} {values : List A} :
    (∃ results, values.mapM f = .ok results) ↔
      ∀ value ∈ values, ∃ result, f value = .ok result := by
  induction values with
  | nil => simp [pure, Except.pure]
  | cons first rest inductionHypothesis =>
      rw [List.mapM_cons, List.forall_mem_cons, ← inductionHypothesis]
      cases f first with
      | error own => simp [bind, Except.bind]
      | ok result => cases rest.mapM f <;> simp [bind, Except.bind, pure, Except.pure]

/-- The results stand in the order of the values. -/
theorem mapM_ok_iff {f : A → Except E B} {values : List A} {results : List B} :
    values.mapM f = .ok results ↔ List.Forall₂ (fun a b => f a = .ok b) values results := by
  induction values generalizing results with
  | nil => simp [pure, Except.pure, eq_comm]
  | cons first rest inductionHypothesis =>
      rw [List.mapM_cons, bind_eq_ok, List.forall₂_cons_left_iff]
      refine exists_congr fun result => ?_
      rw [bind_eq_ok]
      simp only [inductionHypothesis, pure, Except.pure, Except.ok.injEq]
      constructor
      · rintro ⟨here, others, later, rfl⟩
        exact ⟨others, here, later, rfl⟩
      · rintro ⟨others, here, later, rfl⟩
        exact ⟨here, others, later, rfl⟩

/-- Each result is that of one of the values. -/
theorem mem_mapM {f : A → Except E B} {values : List A} {results : List B}
    (done : values.mapM f = .ok results) {b : B} (member : b ∈ results) :
    ∃ a ∈ values, f a = .ok b := by
  have rows := mapM_ok_iff.mp done
  clear done
  induction rows with
  | nil => cases member
  | cons here others inductionHypothesis =>
      rcases List.mem_cons.mp member with rfl | member
      · exact ⟨_, List.mem_cons_self, here⟩
      · obtain ⟨a, inside, is⟩ := inductionHypothesis member
        exact ⟨a, List.mem_cons_of_mem _ inside, is⟩

/-- What is told of a row is told of one of its values. -/
theorem mem_mapM_flatten {f : A → Except E (List B)} {values : List A} {groups : List (List B)}
    (told : values.mapM f = .ok groups) {b : B} :
    b ∈ groups.flatten ↔ ∃ value ∈ values, ∃ group, f value = .ok group ∧ b ∈ group := by
  have rows := mapM_ok_iff.mp told
  clear told
  induction rows with
  | nil => simp
  | cons here later inductionHypothesis => simp [inductionHypothesis, here]

/-- Two rows with the same results one by one have the same result. -/
theorem mapM_forall₂ {C : Type} {f : A → Except E C} {g : B → Except E C} {values : List A}
    {others : List B} (same : List.Forall₂ (fun a b => f a = g b) values others) :
    values.mapM f = others.mapM g := by
  induction same with
  | nil => rfl
  | cons here later inductionHypothesis =>
      rw [List.mapM_cons, List.mapM_cons, here, inductionHypothesis]

/-- A search shows the same in the end or value by value. -/
theorem mapM_view {C : Type} (f : A → Except E (Option B)) (view : B → C) (values : List A) :
    (values.mapM f).map (fun found => found.reduceOption.map view) =
      (values.mapM fun value => (f value).map (Option.map view)).map List.reduceOption := by
  induction values with
  | nil => rfl
  | cons first rest inductionHypothesis =>
      have viewed (found : Option B) (others : List (Option B)) :
          (found :: others).reduceOption.map view =
            (found.map view).toList ++ others.reduceOption.map view := by
        cases found <;> rfl
      have listed (found : Option C) (others : List (Option C)) :
          (found :: others).reduceOption = found.toList ++ others.reduceOption := by
        cases found <;> rfl
      rw [List.mapM_cons, List.mapM_cons]
      cases f first with
      | error e => rfl
      | ok found =>
          calc
            _ = ((rest.mapM f).map fun found => found.reduceOption.map view).map
                ((found.map view).toList ++ ·) := by
              cases rest.mapM f with
              | error e => rfl
              | ok others => exact congrArg Except.ok (viewed found others)
            _ = _ := by
              rw [inductionHypothesis]
              cases rest.mapM fun value => (f value).map (Option.map view) with
              | error e => rfl
              | ok others => exact congrArg Except.ok (listed (found.map view) others).symm

/-- Searches that show the same at each value show the same in the end. -/
theorem mapM_same {C : Type} {f g : A → Except E (Option B)} {view : B → C} {values : List A}
    (same : ∀ value ∈ values, (f value).map (Option.map view) = (g value).map (Option.map view)) :
    (values.mapM f).map (fun found => found.reduceOption.map view) =
      (values.mapM g).map (fun found => found.reduceOption.map view) := by
  rw [mapM_view, mapM_view, mapM_forall₂ (List.forall₂_same.mpr same)]

/-- Steps that fail whatever the state is make a run fail at the first of them. -/
theorem foldlM_eq_error {S : Type} {step : S → A → Except E S} (Fails : A → E → Prop)
    (fails : ∀ state a e, step state a = .error e ↔ Fails a e) {state : S} {row : List A} {e : E} :
    row.foldlM step state = .error e ↔
      ∃ before a after, row = before ++ a :: after ∧
        (∀ earlier ∈ before, ∀ other, ¬Fails earlier other) ∧ Fails a e := by
  induction row generalizing state with
  | nil => simp [pure, Except.pure]
  | cons first rest inductionHypothesis =>
      rw [List.foldlM_cons]
      cases stepped : step state first with
      | error own =>
          have failed := (fails state first own).mp stepped
          constructor
          · rintro ⟨⟩
            exact ⟨[], first, rest, rfl, by simp, failed⟩
          · rintro ⟨_ | ⟨earlier, before⟩, a, after, joined, sound, here⟩
            · obtain ⟨rfl, -⟩ := List.cons.inj joined
              rw [← (fails state first e).mpr here, stepped]
              rfl
            · obtain ⟨rfl, -⟩ := List.cons.inj joined
              exact absurd failed (sound first List.mem_cons_self own)
      | ok next =>
          have sound (e : E) : ¬Fails first e := by
            rw [← fails state, stepped]
            simp
          refine (@inductionHypothesis next).trans ⟨?_, ?_⟩
          · rintro ⟨before, a, after, rfl, others, here⟩
            exact ⟨first :: before, a, after, rfl, List.forall_mem_cons.mpr ⟨sound, others⟩, here⟩
          · rintro ⟨_ | ⟨earlier, before⟩, a, after, joined, others, here⟩
            · obtain ⟨rfl, -⟩ := List.cons.inj joined
              exact absurd here (sound e)
            · obtain ⟨rfl, rfl⟩ := List.cons.inj joined
              exact ⟨before, a, after, rfl, (List.forall_mem_cons.mp others).2, here⟩

end

end Untranslated
