/-
This file proves that comments between the tokens of a file do not change the keys of the array that
it returns, unless one of them stands in front of the array.
-/

import Untranslated.Proofs.Call.Comments
import Untranslated.Proofs.Catalog.Returns
import Untranslated.Proofs.Php.Fading

namespace Untranslated.Php

section

variable {source other : List Char} {node twin : Node}

/-- A key is written alike in both sources. -/
theorem FadedAlike.writtenKey? (alike : FadedAlike source other node twin) :
    writtenKey? source node = writtenKey? other twin := by
  unfold Php.writtenKey?
  rw [← alike.kind .integer rfl (by decide), alike.value?]
  by_cases integer : node.kind = .integer
  · rw [alike.text (by rw [integer]; rfl) (by rw [integer]; rfl)]
  · simp [integer]

/-- Entries of two sources have one key and stand for the same values. -/
structure AlikeEntry (source other : List Char) (entry entry' : Entry) : Prop where
  key : entry.key = entry'.key
  value : FadedAlike source other entry.value entry'.value

/-- Attempts at entries come out alike. -/
inductive AlikeAttempt (source other : List Char) :
    Except KeyError Entry → Except KeyError Entry → Prop where
  | error (e : KeyError) : AlikeAttempt source other (.error e) (.error e)
  | ok {entry entry' : Entry} (alike : AlikeEntry source other entry entry') :
      AlikeAttempt source other (.ok entry) (.ok entry')

/-- Elements give like entries and lead to one index. -/
inductive AlikeStep (source other : List Char) :
    Except KeyError (Nat × Option Entry) → Except KeyError (Nat × Option Entry) → Prop where
  | error (e : KeyError) : AlikeStep source other (.error e) (.error e)
  | passed (next : Nat) : AlikeStep source other (.ok (next, none)) (.ok (next, none))
  | told (next : Nat) {entry entry' : Entry} (alike : AlikeEntry source other entry entry') :
      AlikeStep source other (.ok (next, some entry)) (.ok (next, some entry'))

/-- Alike elements give alike entries. -/
theorem FadedAlike.entryAt (alike : FadedAlike source other node twin) (index : Nat) :
    AlikeStep source other (entryAt source index node) (entryAt other index twin) := by
  have parts := alike.parts
  unfold Php.entryAt
  generalize node.parts = own at parts ⊢
  generalize twin.parts = own' at parts ⊢
  cases parts with
  | nil => exact .passed index
  | @cons first first' rest rest' same others =>
      cases others with
      | nil =>
          simp only [same.kind .spread rfl (by decide)]
          split
          · exact .passed index
          · cases indexKey index with
            | error e => exact .error e
            | ok key => exact .told (index + 1) ⟨rfl, same⟩
      | @cons second second' others others' same' more =>
          cases more with
          | cons => exact .passed index
          | nil =>
              simp only [same.writtenKey?]
              cases Php.writtenKey? other first' with
              | error e => exact .error e
              | ok key =>
                  cases key with
                  | none => exact .passed index
                  | some key =>
                      simp only [bind, Except.bind]
                      cases indexAfter index key with
                      | error e => exact .error e
                      | ok next => exact .told next ⟨rfl, same'⟩

/-- Alike elements in a row give alike entries in a row. -/
theorem entriesFrom_alike {elements elements' : List Node}
    (alike : List.Forall₂ (FadedAlike source other) elements elements') (index : Nat) :
    List.Forall₂ (AlikeAttempt source other) (entriesFrom source index elements)
      (entriesFrom other index elements') := by
  induction alike generalizing index with
  | nil => exact .nil
  | @cons element element' rest rest' same others inductionHypothesis =>
      have step := same.entryAt index
      rw [entriesFrom, entriesFrom]
      generalize entryAt source index element = here at step ⊢
      generalize entryAt other index element' = here' at step ⊢
      cases step with
      | error e => exact .cons (.error e) .nil
      | passed next => exact inductionHypothesis next
      | told next alike => exact .cons (.ok alike) (inductionHypothesis next)

/-- Alike arrays have alike entries. -/
theorem FadedAlike.entries (alike : FadedAlike source other node twin) :
    List.Forall₂ (AlikeAttempt source other) (entries source node) (entries other twin) :=
  entriesFrom_alike (alike.ofKind rfl (by decide) (by decide)) 0

/-- Alike arrays have the same keys, at any depth. -/
theorem FadedAlike.keysToDepth (alike : FadedAlike source other node twin) (depth : Nat)
    (start : Text) : keysToDepth source depth start node = keysToDepth other depth start twin := by
  induction depth generalizing node twin start with
  | zero => rfl
  | succ depth inductionHypothesis =>
      rw [keysToDepth_succ, keysToDepth_succ]
      refine congrArg _ (mapM_forall₂ (alike.entries.imp fun attempt attempt' same => ?_))
      cases same with
      | error e => rfl
      | ok same =>
          simp only [entryKeys, bind, Except.bind, same.key,
            same.value.kind .array rfl (by decide), inductionHypothesis same.value]

/-- Below its size the depth does not matter for the keys of an array. -/
theorem keysToDepth_deep {depth depth' : Nat} (deep : node.size ≤ depth) (deep' : node.size ≤ depth')
    (start : Text) : keysToDepth source depth start node = keysToDepth source depth' start node := by
  have positive := node.sizePositive
  induction depth generalizing depth' node start with
  | zero => omega
  | succ depth inductionHypothesis =>
      obtain ⟨depth', rfl⟩ : ∃ less, depth' = less + 1 := ⟨depth' - 1, by omega⟩
      rw [keysToDepth_succ, keysToDepth_succ]
      refine congrArg _ (mapM_forall₂ (List.forall₂_same.mpr fun attempt member => ?_))
      cases attempt with
      | error e => rfl
      | ok entry =>
          have smaller := entriesFrom_value_size (fun _ own => own) member
          simp only [entryKeys, bind, Except.bind,
            inductionHypothesis (by omega : entry.value.size ≤ depth)
              (by omega : entry.value.size ≤ depth') _ entry.value.sizePositive]

/-- A comment stands in front of what the first return statement returns. -/
def Node.hides (statement : Node) : Bool :=
  statement.namedChildren.head?.any (·.kind == .comment)

/-- A comment stands in front of what the file returns. -/
def Program.hidesArray (program : Program) : Bool :=
  (firstReturn? program.root.children).any Node.hides

/-- The array of the first return statement, whatever stands in front of it. -/
def Program.openArray? (program : Program) : Option Node :=
  (firstReturn? program.root.children).bind fun statement =>
    statement.parts.head?.filter (·.kind == .array)

/-- The keys of that array. -/
def Program.openKeys (program : Program) : Except KeyError (Option (List Text)) :=
  match program.openArray? with
  | none => .ok none
  | some array =>
    (keysToDepth program.source.written array.size [] array).map fun keys => some (Text.unique keys)

/-- A return statement returns the array that stands first in it, unless a comment hides it. -/
theorem returns?_eq (statement : Node) : statement.returns? =
    if statement.hides then none else statement.parts.head?.filter (·.kind == .array) := by
  rw [Node.returns?, Node.hides, Node.parts]
  cases statement.namedChildren with
  | nil => rfl
  | cons first rest =>
      by_cases comment : first.kind = .comment
      · simp [comment]
      · rw [List.filter_cons_of_pos (by simpa using comment)]
        simp [comment]

/-- A file tells the keys of its array, unless a comment hides it. -/
theorem returnedKeys_eq {program : Program} (root : program.root.kind = .program) :
    program.returnedKeys = if program.hidesArray then .ok none else program.openKeys := by
  have array : program.returnedArray? =
      if program.hidesArray then none else program.openArray? := by
    rw [returnedArray?_eq root, Program.hidesArray, Program.openArray?]
    cases firstReturn? program.root.children with
    | none => rfl
    | some statement => exact returns?_eq statement
  unfold Program.returnedKeys Program.openKeys
  rw [array]
  cases program.hidesArray with
  | true => rfl
  | false =>
      simp only [Bool.false_eq_true, if_false]
      cases program.openArray? with
      | none => rfl
      | some own =>
          simp only
          cases keysToDepth program.source.written own.size [] own <;> rfl

/-- Related rows have related values where a test first holds. -/
theorem find?_forall₂ {A B : Type} {related : A → B → Prop} {test : A → Bool} {test' : B → Bool}
    (sees : ∀ a b, related a b → test a = test' b) {values : List A} {others : List B}
    (same : List.Forall₂ related values others) :
    Option.Rel related (values.find? test) (others.find? test') := by
  induction same with
  | nil => exact .none
  | @cons a b rest rest' here later inductionHypothesis =>
      rw [List.find?_cons, List.find?_cons, sees a b here]
      cases test' b with
      | true => exact .some here
      | false => exact inductionHypothesis

/-- Alike programs have alike first return statements. -/
theorem FadedAlike.firstReturn? (alike : FadedAlike source other node twin)
    (program : node.kind = .program) (program' : twin.kind = .program) :
    Option.Rel (FadedAlike source other) (firstReturn? node.children)
      (firstReturn? twin.children) := by
  have proper {node : Node} (program : node.kind = .program) :
      Php.firstReturn? node.children = node.proper.find? (·.kind == .returnStatement) := by
    rw [← firstReturn?_root program, Node.proper, List.find?_filter]
    congr 1
    funext inner
    cases is : inner.kind == .returnStatement with
    | false => simp
    | true => simp [Node.isComment, eq_of_beq is]
  have noComment {node : Node} (program : node.kind = .program) : node.isComment = false := by
    simp [Node.isComment, program]
  rw [proper program, proper program']
  exact find?_forall₂ (fun _ _ same => same.kind .returnStatement rfl (by decide))
    (alike.nodes (noComment program) (noComment program'))

/-- Programs of one faded outline have the same keys, but for comments in front of arrays. -/
theorem openKeys_congr {program program' : Program}
    (alike : FadedAlike program.source.written program'.source.written program.root program'.root)
    (root : program.root.kind = .program) (root' : program'.root.kind = .program) :
    program.openKeys = program'.openKeys := by
  have arrays : Option.Rel (FadedAlike program.source.written program'.source.written)
      program.openArray? program'.openArray? := by
    have statements := alike.firstReturn? root root'
    rw [Program.openArray?, Program.openArray?]
    generalize firstReturn? program.root.children = first at statements ⊢
    generalize firstReturn? program'.root.children = first' at statements ⊢
    cases statements with
    | none => exact .none
    | @some statement statement' same =>
        have parts := same.parts
        simp only [Option.bind_some]
        generalize statement.parts = own at parts ⊢
        generalize statement'.parts = own' at parts ⊢
        cases parts with
        | nil => exact .none
        | @cons value value' rest rest' here later =>
            simp only [List.head?_cons, Option.filter, here.kind .array rfl (by decide)]
            split
            · exact .some here
            · exact .none
  rw [Program.openKeys, Program.openKeys]
  generalize program.openArray? = array at arrays ⊢
  generalize program'.openArray? = array' at arrays ⊢
  cases arrays with
  | none => rfl
  | @some array array' same =>
      simp only
      rw [keysToDepth_deep (Nat.le_refl _) (Nat.le_max_left array.size array'.size),
        keysToDepth_deep (Nat.le_refl _) (Nat.le_max_right array.size array'.size),
        same.keysToDepth]

end

end Untranslated.Php

namespace Untranslated.Catalog

open Php
open Call (Insertion)

/-- A text and the text with comments put between its tokens, one after the other. -/
inductive Annotated : List Char → List Char → Prop where
  | same (text : List Char) : Annotated text text
  | comment {text before body after : List Char} (annotated : Annotated text (before ++ after))
      (insertion : Insertion before body after) :
      Annotated text (before ++ (blockComment body ++ after))

section

variable {path : Option Text} {program : Program}

/-- A comment between two tokens leaves the keys of the array as they are. -/
theorem openKeys_comment {before body after : List Char} (insertion : Insertion before body after)
    (valid : Php.parse (before ++ after) path = .ok program) :
    ∃ program', Php.parse (before ++ (blockComment body ++ after)) path = .ok program' ∧
      program'.openKeys = program.openKeys := by
  obtain ⟨tree, tokens, tokens', formed, isProgram, rows, rfl, valid'⟩ := insertion.reads valid
  refine ⟨_, valid', ?_⟩
  have written : Widens before.length (blockComment body).length (before ++ after)
      (before ++ (blockComment body ++ after)) := .mk rfl rfl
  exact (openKeys_congr (toNode_fadedAlike written formed isProgram rows)
    ((toNode_kind tree _).trans isProgram) ((toNode_kind tree _).trans isProgram)).symm

/-- Any number of comments leave the keys of the array as they are. -/
theorem openKeys_annotated {text other : List Char} (annotated : Annotated text other)
    (valid : Php.parse text path = .ok program) :
    ∃ program', Php.parse other path = .ok program' ∧ program'.openKeys = program.openKeys := by
  induction annotated with
  | same => exact ⟨program, valid, rfl⟩
  | comment annotated insertion inductionHypothesis =>
      obtain ⟨middle, valid, same⟩ := inductionHypothesis
      obtain ⟨program', valid', same'⟩ := openKeys_comment insertion valid
      exact ⟨program', valid', same'.trans same⟩

/-- The keys of a file are those of its open array, unless a comment hides that. -/
theorem codeKeys_hides {text : List Char} (valid : Php.parse text path = .ok program) :
    codeKeys text path =
      match (if program.hidesArray then .ok none else program.openKeys) with
      | .error e => .error (.inr e)
      | .ok (some keys) => .ok (keys, [])
      | .ok none => .ok ([], [noArray path]) := by
  rw [codeKeys, valid, ← returnedKeys_eq (parse_root valid)]
  rfl

/-- Comments between the tokens of a valid file leave it valid. They change neither its keys nor
the error for a key that cannot be read, unless one of them is the first in front of the array, and
then no keys are told. -/
theorem codeKeys_annotated {text other : List Char} (annotated : Annotated text other)
    (valid : Php.parse text path = .ok program) :
    ∃ program', Php.parse other path = .ok program' ∧
      (program'.hidesArray = program.hidesArray → codeKeys other path = codeKeys text path) ∧
      (program'.hidesArray = true → codeKeys other path = .ok ([], [noArray path])) := by
  obtain ⟨program', valid', same⟩ := openKeys_annotated annotated valid
  refine ⟨program', valid', fun hides => ?_, fun hides => ?_⟩
  · rw [codeKeys_hides valid, codeKeys_hides valid', hides, same]
  · rw [codeKeys_hides valid', hides]
    rfl

end

/-- An array in an array. -/
def nestedArray : List Char := "<?php return ['a' => ['b' => 1]];".toList

/-- A comment behind a key, and one in the nested array. -/
def nestedAnnotated : List Char := "<?php return ['a' /* c */=> [/* d */'b' => 1]];".toList

/-- Both comments stand between tokens. -/
theorem annotated_nestedArray : Annotated nestedArray nestedAnnotated := by
  have behind : Insertion "<?php return ['a' ".toList " c ".toList "=> ['b' => 1]];".toList :=
    ⟨by decide, by decide, by decide, by decide +kernel, by decide +kernel⟩
  have inside : Insertion "<?php return ['a' /* c */=> [".toList " d ".toList "'b' => 1]];".toList :=
    ⟨by decide, by decide, by decide, by decide +kernel, by decide +kernel⟩
  have start : "<?php return ['a' ".toList ++ "=> ['b' => 1]];".toList = nestedArray := by decide
  have middle : "<?php return ['a' ".toList ++ (blockComment " c ".toList ++
      "=> ['b' => 1]];".toList) = "<?php return ['a' /* c */=> [".toList ++ "'b' => 1]];".toList := by
    decide
  have stop : "<?php return ['a' /* c */=> [".toList ++ (blockComment " d ".toList ++
      "'b' => 1]];".toList) = nestedAnnotated := by decide
  have first := Annotated.comment (.same _) behind
  rw [start, middle] at first
  have second := Annotated.comment first inside
  rwa [stop] at second

/-- With the comments the file has the same keys. -/
theorem codeKeys_annotated_nested : codeKeys nestedAnnotated none = codeKeys nestedArray none := by
  have bare : (Php.parse nestedArray none).toOption.map Program.hidesArray = some false := by
    decide +kernel
  have bare' : (Php.parse nestedAnnotated none).toOption.map Program.hidesArray = some false := by
    decide +kernel
  obtain ⟨program, valid, shown⟩ := ok_of_toOption bare
  obtain ⟨program', valid', same, -⟩ := codeKeys_annotated annotated_nestedArray valid
  rw [valid'] at bare'
  exact same ((Option.some.inj bare').trans shown.symm)

/-- With a comment between the keyword and the array no key is told. -/
theorem codeKeys_annotated_hidden :
    ∃ before body after, Insertion before body after ∧
      (codeKeys (before ++ after) none).toOption.map (·.1) = some [Text.ofString "a"] ∧
      (codeKeys (before ++ (blockComment body ++ after)) none).toOption.map (·.1) = some [] :=
  ⟨"<?php return ".toList, " c ".toList, "['a' => 1];".toList,
    ⟨by decide, by decide, by decide, by decide +kernel, by decide +kernel⟩, by decide +kernel,
    by decide +kernel⟩

end Untranslated.Catalog
