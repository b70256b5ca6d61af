/-
This file proves that first occurrences can be taken in parts, and that texts are ordered.
-/

import Untranslated.Text.CodePoint

namespace Untranslated.Text

section

variable {A : Type} [DecidableEq A]

/-- It does not matter whether values are kept once before or after a filter. -/
theorem unique_filter (keep : A → Bool) (values : List A) :
    unique (values.filter keep) = (unique values).filter keep := by
  induction values with
  | nil => rfl
  | cons a rest inductionHypothesis =>
      by_cases kept : keep a = true
      · rw [List.filter_cons_of_pos kept, unique, unique, List.filter_cons_of_pos kept,
          inductionHypothesis, List.filter_filter, List.filter_filter]
        simp only [Bool.and_comm]
      · rw [List.filter_cons_of_neg kept, unique, List.filter_cons_of_neg kept,
          inductionHypothesis, List.filter_filter]
        refine List.filter_congr fun b _ => ?_
        by_cases same : b = a <;> simp [same, kept]

/-- The occurrences of the second part count only if the first part has none. -/
theorem unique_append (first second : List A) :
    unique (first ++ second) = unique first ++ (unique second).filter (· ∉ first) := by
  induction first with
  | nil =>
      rw [List.nil_append, unique, List.nil_append]
      exact (List.filter_eq_self.mpr fun _ _ => by simp).symm
  | cons a rest inductionHypothesis =>
      rw [List.cons_append, unique, unique, inductionHypothesis, List.filter_append,
        List.filter_filter, List.cons_append]
      simp only [List.mem_cons, not_or, Bool.decide_and]

/-- Distinct values are all kept. -/
theorem unique_of_nodup {values : List A} (distinct : values.Nodup) : unique values = values := by
  induction values with
  | nil => rfl
  | cons a rest inductionHypothesis =>
      obtain ⟨absent, distinct⟩ := List.nodup_cons.mp distinct
      rw [unique, inductionHypothesis distinct]
      refine congrArg (a :: ·) (List.filter_eq_self.mpr fun b member => ?_)
      simpa using fun same : b = a => absent (same ▸ member)

/-- A value at the end is kept if it is new. -/
theorem unique_append_singleton (values : List A) (a : A) :
    unique (values ++ [a]) = if a ∈ values then unique values else unique values ++ [a] := by
  rw [unique_append]
  by_cases present : a ∈ values <;> simp [unique, present]

/-- First occurrences in each part and then in all of them are first occurrences in the whole. -/
theorem unique_flatMap_unique (parts : List (List A)) :
    unique (parts.flatMap unique) = unique parts.flatten := by
  induction parts with
  | nil => rfl
  | cons first rest inductionHypothesis =>
      rw [List.flatMap_cons, List.flatten_cons, unique_append, unique_append, inductionHypothesis,
        unique_of_nodup (uniqueNodup first)]
      simp only [uniqueMember]

/-- The first of equal values is kept. -/
theorem unique_eq_eraseDups [BEq A] [LawfulBEq A] (values : List A) :
    unique values = values.eraseDups := by
  match values with
  | [] => rfl
  | a :: rest =>
    rw [unique, ← unique_filter, unique_eq_eraseDups (rest.filter (· ≠ a)), List.eraseDups_cons]
    congr 2
    refine List.filter_congr fun b _ => ?_
    by_cases same : b = a <;> simp [same]
termination_by values.length
decreasing_by exact Nat.lt_succ_of_le (List.length_filter_le _ _)

end

/-- A text is not behind itself. -/
theorem le_refl (t : Text) : le t t = true := by
  induction t with
  | nil => rfl
  | cons a t inductionHypothesis => simp [le, inductionHypothesis]

/-- Of two texts one is not behind the other. -/
theorem le_total (s t : Text) : (le s t || le t s) = true := by
  induction s generalizing t with
  | nil => simp [le]
  | cons a s inductionHypothesis =>
      cases t with
      | nil => simp [le]
      | cons b t =>
          have rest := inductionHypothesis t
          simp only [le, Bool.or_eq_true, Bool.and_eq_true, decide_eq_true_eq, beq_iff_eq] at rest ⊢
          rcases Nat.lt_trichotomy a.value b.value with less | same | more
          · exact .inl (.inl less)
          · exact rest.imp (fun le => .inr ⟨same, le⟩) (fun le => .inr ⟨same.symm, le⟩)
          · exact .inr (.inl more)

/-- The order of texts is transitive. -/
theorem le_trans (s t u : Text) (first : le s t = true) (second : le t u = true) :
    le s u = true := by
  induction s generalizing t u with
  | nil => simp [le]
  | cons a s inductionHypothesis =>
      cases t with
      | nil => simp [le] at first
      | cons b t =>
          cases u with
          | nil => simp [le] at second
          | cons c u =>
              simp only [le, Bool.or_eq_true, Bool.and_eq_true, decide_eq_true_eq, beq_iff_eq]
                at first second ⊢
              rcases first with less | ⟨same, first⟩
              · rcases second with later | ⟨equal, _⟩
                · exact .inl (Nat.lt_trans less later)
                · exact .inl (equal ▸ less)
              · rcases second with later | ⟨equal, second⟩
                · exact .inl (same ▸ later)
                · exact .inr ⟨same.trans equal, inductionHypothesis t u first second⟩

/-- Different texts have different places in the order. -/
theorem le_antisymm (s t : Text) (first : le s t = true) (second : le t s = true) : s = t := by
  induction s generalizing t with
  | nil =>
      cases t with
      | nil => rfl
      | cons b t => simp [le] at second
  | cons a s inductionHypothesis =>
      cases t with
      | nil => simp [le] at first
      | cons b t =>
          simp only [le, Bool.or_eq_true, Bool.and_eq_true, decide_eq_true_eq, beq_iff_eq]
            at first second
          have same : a.value = b.value := by omega
          have rest : s = t := by
            rcases first with less | ⟨_, first⟩
            · omega
            · rcases second with less | ⟨_, second⟩
              · omega
              · exact inductionHypothesis t first second
          cases a
          cases b
          simp only at same
          subst same rest
          rfl

theorem sort_pairwise (texts : List Text) : (sort texts).Pairwise fun s t => le s t = true :=
  List.pairwise_mergeSort le_trans le_total texts

theorem sort_perm (texts : List Text) : (sort texts).Perm texts := List.mergeSort_perm texts le

/-- The kept texts come out in the same order whether they are chosen before or after. -/
theorem sort_filter (keep : Text → Bool) (texts : List Text) :
    (sort texts).filter keep = sort (texts.filter keep) :=
  List.Perm.eq_of_pairwise (fun s t _ _ => le_antisymm s t)
    ((sort_pairwise texts).filter keep) (sort_pairwise _)
    (((sort_perm texts).filter keep).trans (sort_perm _).symm)

end Untranslated.Text
