/-
This file proves that every call of a target is found once, outer calls before inner ones and then
in the order of the text. The aliases of the whole file hold everywhere in it.
-/

import Untranslated.Proofs.Call.Matching
import Untranslated.Proofs.Php.Import.Declarations
import Untranslated.Proofs.Php.Order

namespace Untranslated.Call

open Php (Lists Node Program bindingsOf lastBound)
open Php.Literal (EscapeError)

/-- A call of a target at a node, with its label, its position and its arguments. -/
def IsSite (program : Program) (targets : Targets) (node : Node) (site : Site) : Prop :=
  ∃ label, Calls program.source.written targets program.aliases node label ∧
    site = ⟨node, label, program.source.position node.start, argumentsOf node⟩

/-- At no node it is a question whether a target is called. -/
def Tellable (program : Program) (nodes : List Node) : Prop :=
  ∀ node ∈ nodes, ∀ object name e,
    ¬CallFails program.source.written program.aliases node object name e

/-- The call site at a node, where it can be told. -/
def told? (program : Program) (targets : Targets) (node : Node) : Option Site :=
  (siteAt? program targets program.aliases node).toOption.join

section

variable {program : Program} {targets : Targets}

/-- A call that can be told is one that is found. -/
theorem told?_eq_some {node : Node} {site : Site} :
    told? program targets node = some site ↔ IsSite program targets node site := by
  rw [IsSite, ← siteAt?_eq_some, told?]
  cases siteAt? program targets program.aliases node with
  | error e => simp [Except.toOption]
  | ok found => simp [Except.toOption]

/-- It can be told of nodes whether they are calls just when the search fails at none. -/
theorem tellable_iff (targets : Targets) {nodes : List Node} : Tellable program nodes ↔
    ∀ node ∈ nodes, ∃ found, siteAt? program targets program.aliases node = .ok found := by
  refine forall₂_congr fun node _ => ?_
  cases told : siteAt? program targets program.aliases node with
  | error e =>
      obtain ⟨object, name, fails⟩ := siteAt?_eq_error.mp told
      simpa using ⟨object, name, e, fails⟩
  | ok found =>
      simp only [Except.ok.injEq, exists_eq', iff_true]
      intro object name e fails
      cases told.symm.trans (siteAt?_eq_error.mpr ⟨object, name, fails⟩)

/-- The sites of a program are told in pre-order, if each node can be told. -/
theorem sites_eq_ok {found : List Site} : sites program targets = .ok found ↔
    Tellable program program.root.preorder ∧
      found = program.root.preorder.filterMap (told? program targets) := by
  -- The sites that are there are those of the nodes where there is one, in the same order.
  have mapped (nodes : List Node) (results : List (Option Site)) :
      nodes.mapM (siteAt? program targets program.aliases) = .ok results →
        results.reduceOption = nodes.filterMap (told? program targets) := by
    rw [mapM_ok_iff]
    intro each
    induction each with
    | nil => rfl
    | @cons node result nodes results here later inductionHypothesis =>
        have own : told? program targets node = result := by
          rw [told?, here]
          rfl
        cases result with
        | none =>
            rw [List.filterMap_cons_none own]
            exact inductionHypothesis
        | some site =>
            rw [List.filterMap_cons_some own]
            exact congrArg (site :: ·) inductionHypothesis
  rw [tellable_iff targets, ← mapM_eq_ok, sites, program.root.nodes_eq_preorder]
  constructor
  · intro told
    obtain ⟨results, each, joined⟩ := bind_eq_ok.mp told
    cases joined
    exact ⟨⟨results, each⟩, mapped _ _ each⟩
  · rintro ⟨⟨results, told⟩, rfl⟩
    rw [← mapped _ _ told]
    exact bind_eq_ok.mpr ⟨results, told, rfl⟩

/-- The sites of a program fail with the first node that cannot be told. -/
theorem sites_eq_error {e : EscapeError} : sites program targets = .error e ↔
    ∃ before node after, program.root.preorder = before ++ node :: after ∧
      Tellable program before ∧ ∃ object name,
        CallFails program.source.written program.aliases node object name e := by
  have failed : sites program targets = .error e ↔
      program.root.preorder.mapM (siteAt? program targets program.aliases) = .error e := by
    rw [sites, program.root.nodes_eq_preorder, bind_eq_error, or_iff_left_iff_imp]
    rintro ⟨found, -, joined⟩
    cases joined
  rw [failed, mapM_eq_error, FailsFirst]
  simp only [tellable_iff targets, siteAt?_eq_error]

/-- Sites are listed for all calls, and for nothing else. -/
theorem sites_lists {found : List Site} (told : sites program targets = .ok found) :
    Lists program.root (IsSite program targets) found := by
  obtain ⟨-, rfl⟩ := sites_eq_ok.mp told
  have listed := Php.lists_filterMap program.root (told? program targets)
  simp only [told?_eq_some] at listed
  exact listed

/-- In an ordered tree the positions of the sites never decrease. -/
theorem sites_positions (ordered : program.root.InOrder) {found : List Site}
    (told : sites program targets = .ok found) :
    found.Pairwise fun first second => first.position.NotBehind second.position := by
  obtain ⟨-, rfl⟩ := sites_eq_ok.mp told
  refine List.pairwise_filterMap.mpr (ordered.starts.imp fun {first second} before => ?_)
  intro site here other later
  obtain ⟨-, -, rfl⟩ := told?_eq_some.mp here
  obtain ⟨-, -, rfl⟩ := told?_eq_some.mp later
  exact program.source.position_notBehind before

/-- The positions of the sites of a file never decrease. -/
theorem sites_positions_parsed {text : List Char} {path : Option Text}
    (parsed : Php.parse text path = .ok program) {found : List Site}
    (told : sites program targets = .ok found) :
    found.Pairwise fun first second => first.position.NotBehind second.position :=
  sites_positions (Php.parse_inOrder parsed) told

end

/-- A traversal visits every node of a tree once, in pre-order. The sites are told in that order for
all calls whose names are configured, with the aliases that the whole file binds, and their
positions never decrease where the nodes lie in the order of the text. No sites are told just when
at some node it cannot be told whether a target is called. -/
theorem sites_everyCall (program : Program) (targets : Targets) :
    program.root.nodes = program.root.preorder ∧
    Lists program.root (fun node visited => visited = node) program.root.nodes ∧
    (∀ word,
      program.aliases.classes.lookup? word =
          lastBound word (bindingsOf .classLike program.imports) ∧
        program.aliases.functions.lookup? word =
          lastBound word (bindingsOf .function program.imports)) ∧
    match sites program targets with
    | .ok found =>
      Tellable program program.root.preorder ∧
        Lists program.root (IsSite program targets) found ∧
        (program.root.InOrder →
          found.Pairwise fun first second => first.position.NotBehind second.position)
    | .error e =>
      ∃ before node after, program.root.preorder = before ++ node :: after ∧
        Tellable program before ∧
        ∃ object name, CallFails program.source.written program.aliases node object name e := by
  refine ⟨program.root.nodes_eq_preorder, Php.lists_nodes program.root,
    fun word => Php.addAll_lookup? program.imports word, ?_⟩
  cases told : sites program targets with
  | ok found =>
      exact ⟨(sites_eq_ok.mp told).1, sites_lists told, fun ordered => sites_positions ordered told⟩
  | error e => exact sites_eq_error.mp told

/-- Calls in a row that begin at one place, a call among the arguments of another, and an alias that
is declared behind them. -/
def chainedCalls : List Char :=
  "<?php $translator->get(t('a'))->translator?->choice('b');
Lang::get('c'); use function A\\__ as T;".toList

/-- The four calls are told in pre-order with their positions. -/
theorem sites_everyCall_chained : ∃ program found,
    Php.parse chainedCalls none = .ok program ∧ sites program .default = .ok found ∧
      Lists program.root (IsSite program .default) found ∧
      found.Pairwise (fun first second => first.position.NotBehind second.position) ∧
      (found.map fun site => (site.label, site.position)) =
        [(Text.ofString "translator->choice", ⟨1, 7⟩), (Text.ofString "translator->get", ⟨1, 7⟩),
          (Text.ofString "__", ⟨1, 24⟩), (Text.ofString "Lang::get", ⟨2, 1⟩)] := by
  have read : (Php.parse chainedCalls none).toOption.map (fun program =>
      (sites program .default).toOption.map
        (·.map fun site => (site.label, site.position))) =
      some (some [(Text.ofString "translator->choice", ⟨1, 7⟩),
        (Text.ofString "translator->get", ⟨1, 7⟩), (Text.ofString "__", ⟨1, 24⟩),
        (Text.ofString "Lang::get", ⟨2, 1⟩)]) := by
    decide +kernel
  obtain ⟨program, parsed, read⟩ := ok_of_toOption read
  obtain ⟨found, told, view⟩ := ok_of_toOption read
  obtain ⟨-, -, -, all⟩ := sites_everyCall program .default
  rw [told] at all
  obtain ⟨-, listed, positions⟩ := all
  exact ⟨program, found, parsed, told, listed, positions (Php.parse_inOrder parsed), view⟩

/-- A container is asked for a service whose name has an escape beyond the last code point. -/
def oversizedService : List Char :=
  "<?php app(\"\\u\x7b110000\x7d\")->get('x'); __('k');".toList

/-- There is a call of a target, and no call is found. -/
theorem sites_oversizedService : ∃ program,
    Php.parse oversizedService none = .ok program ∧
      (∃ node ∈ program.root.nodes, ∃ site, IsSite program .default node site) ∧
      ∃ e, sites program .default = .error e := by
  have read : (Php.parse oversizedService none).toOption.map (fun program =>
      ((sites program .default).isOk,
        (program.root.nodes.filterMap (told? program .default)).length)) = some (false, 1) := by
    decide +kernel
  obtain ⟨program, parsed, read⟩ := ok_of_toOption read
  obtain ⟨failed, single⟩ := Prod.mk.inj read
  refine ⟨program, parsed, ?_, ?_⟩
  · obtain ⟨site, only⟩ := List.length_eq_one_iff.mp single
    have member : site ∈ program.root.nodes.filterMap (told? program .default) := by simp [only]
    obtain ⟨node, inside, told⟩ := List.mem_filterMap.mp member
    exact ⟨node, inside, site, told?_eq_some.mp told⟩
  · cases told : sites program .default with
    | error e => exact ⟨e, rfl⟩
    | ok found =>
        rw [told] at failed
        cases failed

end Untranslated.Call
