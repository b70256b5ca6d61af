/-
This file proves that the keys of a file are those of the array that it returns, unless a return
statement inside something before comes first, or a comment stands in front of the array.
-/

import Untranslated.Proofs.Catalog.KeyPaths
import Untranslated.Proofs.Php.Placing

namespace Untranslated.Php

/-- The first return statement among nodes and what is inside them. -/
def firstReturn? (nodes : List Node) : Option Node :=
  (Node.preorders nodes).find? (·.kind == .returnStatement)

/-- The array that a statement returns, if nothing stands in front of it. -/
def Node.returns? (statement : Node) : Option Node :=
  statement.namedChildren.head?.filter (·.kind == .array)

/-- The first return statement of two rows is that of the first row that has one. -/
theorem firstReturn?_append (first second : List Node) :
    firstReturn? (first ++ second) = (firstReturn? first).or (firstReturn? second) := by
  rw [firstReturn?, Node.preordersAppend, List.find?_append]
  rfl

/-- A return statement comes before what is inside it and after it. -/
theorem firstReturn?_cons {statement : Node} (is : statement.kind = .returnStatement)
    (rest : List Node) : firstReturn? (statement :: rest) = some statement := by
  cases statement with
  | mk kind role spelling start stop children =>
      rw [firstReturn?, Node.preorders, Node.preorder, List.cons_append,
        List.find?_cons_of_pos (by simpa using is)]

/-- The root of a parsed file is a program. -/
theorem parse_root {text : List Char} {path : Option Text} {program : Program}
    (valid : parse text path = .ok program) : program.root.kind = .program := by
  obtain ⟨tree, success, rfl⟩ := parse_eq_ok.mp valid
  exact (toNode_kind tree _).trans (read_formed success).2

/-- A program itself is no return statement. -/
theorem firstReturn?_root {root : Node} (program : root.kind = .program) :
    root.preorder.find? (·.kind == .returnStatement) = firstReturn? root.children := by
  cases root with
  | mk kind role spelling start stop children =>
      rw [Node.preorder, List.find?_cons_of_neg (by rw [program]; decide)]
      rfl

/-- The first return statement of a file decides which array is taken. -/
theorem returnedArray?_eq {program : Program} (root : program.root.kind = .program) :
    program.returnedArray? = (firstReturn? program.root.children).bind Node.returns? := by
  rw [Program.returnedArray?, Node.nodes_eq_preorder, firstReturn?_root root]
  refine Option.bind_congr fun statement _ => ?_
  rw [Node.returns?]
  cases statement.namedChildren.head? with
  | none => rfl
  | some value => by_cases isArray : value.kind = .array <;> simp [isArray, Option.filter]

/-- An array that is the first named child stands in front of all comments. -/
theorem parts_head? {statement array : Node} (front : statement.namedChildren.head? = some array)
    (isArray : array.kind = .array) : statement.parts.head? = some array := by
  obtain ⟨rest, children⟩ := List.head?_eq_some_iff.mp front
  rw [Node.parts, children, List.filter_cons_of_pos (by rw [isArray]; decide), List.head?_cons]

/-- Without a comment in front the first part of a statement is what it returns. -/
theorem returns?_eq_none {statement array : Node} (value : statement.parts.head? = some array)
    (hidden : statement.namedChildren.head? ≠ some array) : statement.returns? = none := by
  rw [Node.parts, List.head?_filter] at value
  rw [Node.returns?]
  cases children : statement.namedChildren with
  | nil => rfl
  | cons first rest =>
      rw [children] at value hidden
      -- What stands in front of the first part can only be a comment.
      have comment : first.kind = .comment := by
        by_contra proper
        rw [List.find?_cons_of_pos (by simpa using proper)] at value
        exact hidden value
      simp [comment]

end Untranslated.Php

namespace Untranslated.Catalog

open Php

/-- Either the keys of an array are told, the paths to its entries joined with dots, each of them
once, or the first key that cannot be read is. -/
def TellsKeys (text : List Char) (array : Node)
    (result : Except (Unreadable ⊕ KeyError) (List Text × List Record)) : Prop :=
  (∃ keys, result = .ok (keys, []) ∧ keys.Nodup ∧
    ∀ key, key ∈ keys ↔ ∃ path, KeyPath text array path ∧ dottedPath path = key) ∨
  ∃ e, result = .error (.inr e) ∧ FirstUnreadable text array e

/-- The report on a file that returns no array. -/
def noArray (path : Option Text) : Record :=
  ⟨.warning, origin,
    "Language file does not return an array literal: " ++ Php.pathOrPlaceholder path⟩

section

variable {text : List Char} {path : Option Text} {program : Program}

/-- A file that returns an array tells its keys. -/
theorem codeKeys_of_array (valid : Php.parse text path = .ok program) {array : Node}
    (returns : program.returnedArray? = some array) :
    TellsKeys text array (codeKeys text path) := by
  simp only [codeKeys, valid]
  cases told : program.returnedKeys with
  | error e =>
      obtain ⟨own, same, unreadable⟩ := returnedKeys_eq_error.mp told
      obtain rfl := Option.some.inj (returns.symm.trans same)
      exact .inr ⟨e, rfl, parse_written valid ▸ unreadable⟩
  | ok found =>
      obtain ⟨keys, rfl, once, paths⟩ := returnedKeys_paths returns told
      exact .inl ⟨keys, rfl, once, parse_written valid ▸ paths⟩

/-- A file that returns no array has no keys, and it is reported. -/
theorem codeKeys_of_noArray (valid : Php.parse text path = .ok program)
    (returns : program.returnedArray? = none) : codeKeys text path = .ok ([], [noArray path]) := by
  rw [codeKeys, valid]
  simp only [Program.returnedKeys, returns]
  rfl

/-- For a file with a statement at the top level that returns an array, the keys of that array are
told if no return statement comes before, inside a function or anything else, and no comment stands
in front of the array. A return statement that comes before decides alone, and a comment hides the
array. -/
theorem codeKeys_topLevel (valid : Php.parse text path = .ok program) {before after : List Node}
    {statement array : Node} (children : program.root.children = before ++ statement :: after)
    (is : statement.kind = .returnStatement) (value : statement.parts.head? = some array)
    (isArray : array.kind = .array) :
    (firstReturn? before = none →
      (statement.namedChildren.head? = some array → TellsKeys text array (codeKeys text path)) ∧
        (statement.namedChildren.head? ≠ some array →
          codeKeys text path = .ok ([], [noArray path]))) ∧
      ∀ first, firstReturn? before = some first →
        (∀ own, first.returns? = some own → TellsKeys text own (codeKeys text path)) ∧
          (first.returns? = none → codeKeys text path = .ok ([], [noArray path])) := by
  have decides {first : Node} (found : (firstReturn? before).or (some statement) = some first) :
      program.returnedArray? = first.returns? := by
    rw [returnedArray?_eq (parse_root valid), children, firstReturn?_append, firstReturn?_cons is,
      found, Option.bind_some]
  constructor
  · intro noneBefore
    have own : program.returnedArray? = statement.returns? := decides (by rw [noneBefore]; rfl)
    constructor
    · intro front
      refine codeKeys_of_array valid (own.trans ?_)
      rw [Node.returns?, front]
      simp [isArray]
    · intro hidden
      exact codeKeys_of_noArray valid (own.trans (returns?_eq_none value hidden))
  · intro first found
    have own : program.returnedArray? = first.returns? := decides (by rw [found]; rfl)
    exact ⟨fun array returned => codeKeys_of_array valid (own.trans returned),
      fun absent => codeKeys_of_noArray valid (own.trans absent)⟩

end

/-- The first return statement at the top level of a file, with what stands before it and after it,
and the array that it returns. -/
def topLevelReturn? (program : Program) : Option (List Node × Node × List Node × Node) :=
  match program.root.children.dropWhile (·.kind != .returnStatement) with
  | [] => none
  | statement :: after => statement.returns?.map fun array =>
    (program.root.children.takeWhile (·.kind != .returnStatement), statement, after, array)

/-- The statement that is found returns the array, and no return statement stands before it. -/
theorem topLevelReturn?_eq_some {program : Program} {before after : List Node}
    {statement array : Node}
    (found : topLevelReturn? program = some (before, statement, after, array)) :
    program.root.children = before ++ statement :: after ∧ statement.kind = .returnStatement ∧
      statement.namedChildren.head? = some array ∧ array.kind = .array ∧
      ∀ node ∈ before, node.kind ≠ .returnStatement := by
  rw [topLevelReturn?] at found
  split at found
  · cases found
  · rename_i rest split
    obtain ⟨own, returned, same⟩ := Option.map_eq_some_iff.mp found
    obtain ⟨rfl, rfl, rfl, rfl⟩ : _ ∧ _ ∧ _ ∧ _ := by simpa only [Prod.mk.injEq] using same
    obtain ⟨front, isArray⟩ := Option.filter_eq_some_iff.mp returned
    refine ⟨?_, ?_, front, by simpa using isArray, ?_⟩
    · rw [← split, List.takeWhile_append_dropWhile]
    · have stops := List.head?_dropWhile_not (·.kind != .returnStatement) program.root.children
      simpa [split] using stops
    · intro node member
      simpa using List.mem_takeWhile_imp member

/-- Functions around the statement, one of them with a return statement of its own. -/
def withFunctions : List Char :=
  "<?php function f() { echo 1; } return ['a' => ['b' => 'x']]; function g() { return 2; }".toList

/-- The array of the file is told, for no function in front of it returns anything. -/
theorem codeKeys_topLevel_functions :
    ∃ program before statement after array, Php.parse withFunctions none = .ok program ∧
      program.root.children = before ++ statement :: after ∧ (firstReturn? after).isSome ∧
      KeyPath withFunctions array ["a", "b"] ∧
      TellsKeys withFunctions array (codeKeys withFunctions none) := by
  have reads : (Php.parse withFunctions none).toOption.map (fun program =>
      (topLevelReturn? program).map fun (before, _, after, array) =>
        ((firstReturn? before).isNone, (firstReturn? after).isSome,
          decide (KeyPath withFunctions array ["a", "b"]))) = some (some (true, true, true)) := by
    decide +kernel
  obtain ⟨program, valid, reads⟩ := ok_of_toOption reads
  obtain ⟨⟨before, statement, after, array⟩, found, facts⟩ := Option.map_eq_some_iff.mp reads
  simp only [Prod.mk.injEq, Option.isNone_iff_eq_none, decide_eq_true_eq] at facts
  obtain ⟨noneBefore, someAfter, leads⟩ := facts
  obtain ⟨children, is, front, isArray, -⟩ := topLevelReturn?_eq_some found
  obtain ⟨own, -⟩ := codeKeys_topLevel valid children is (parts_head? front isArray) isArray
  exact ⟨program, before, statement, after, array, valid, children, someAfter, leads,
    (own noneBefore).1 front⟩

/-- A function that returns something before the file returns its array. -/
def functionFirst : List Char := "<?php function f() { return 1; } return ['a' => 1];".toList

/-- The return statement of the function is taken for that of the file, and no key is told. -/
theorem codeKeys_topLevel_nested :
    ∃ program before statement after array, Php.parse functionFirst none = .ok program ∧
      program.root.children = before ++ statement :: after ∧ statement.kind = .returnStatement ∧
      (∀ node ∈ before ++ after, node.kind ≠ .returnStatement) ∧
      statement.namedChildren.head? = some array ∧ array.kind = .array ∧
      KeyPath functionFirst array ["a"] ∧
      codeKeys functionFirst none = .ok ([], [noArray none]) := by
  have reads : (Php.parse functionFirst none).toOption.map (fun program =>
      (topLevelReturn? program).map fun (_, _, after, array) =>
        (program.returnedArray?.isNone, after.all (·.kind != .returnStatement),
          decide (KeyPath functionFirst array ["a"]))) = some (some (true, true, true)) := by
    decide +kernel
  obtain ⟨program, valid, reads⟩ := ok_of_toOption reads
  obtain ⟨⟨before, statement, after, array⟩, found, facts⟩ := Option.map_eq_some_iff.mp reads
  simp only [Prod.mk.injEq, Option.isNone_iff_eq_none, decide_eq_true_eq, List.all_eq_true,
    bne_iff_ne] at facts
  obtain ⟨noArray, onlyAfter, leads⟩ := facts
  obtain ⟨children, is, front, isArray, onlyBefore⟩ := topLevelReturn?_eq_some found
  exact ⟨program, before, statement, after, array, valid, children, is,
    List.forall_mem_append.mpr ⟨onlyBefore, onlyAfter⟩, front, isArray, leads,
    codeKeys_of_noArray valid noArray⟩

end Untranslated.Catalog
