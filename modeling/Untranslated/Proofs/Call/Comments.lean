/-
This file proves that comments between the tokens of a program do not change which calls are found
and which keys they have. Comments in names, variables and use declarations count, and so do those
that end a bracketed receiver.
-/

import Untranslated.Proofs.Call.Findings
import Untranslated.Proofs.Php.Masking
import Untranslated.Proofs.Php.Placing

namespace Untranslated.Call

open Php

/-- What comes last is no comment, if a tree comes last. -/
theorem endsPlain_concat {node last : Node} {front : List Node}
    (children : node.children = front ++ [last]) (named : last.kind.isNamed = true)
    (proper : last.kind ≠ .comment) : EndsPlain node := by
  rw [EndsPlain, Node.parts, Node.namedChildren, children]
  simp [List.filter_append, named, proper]

/-- The value of an argument stands last, and the name of its parameter is a single word. -/
theorem plainArgument_place {children : List Child}
    (formed : Grammar.Formed (.branch .argument children))
    (role : Role) (offset : Nat) (tokens : List Token) :
    PlainArgument ((Tree.branch .argument children).place role offset tokens).node := by
  cases formed with
  | branch fits inside =>
  obtain ⟨named, before, value, rfl, isName, plain, isNamed⟩ := fits
  constructor
  · obtain ⟨front, offset', tokens', row⟩ :=
      place_last .argument (named ++ before) .none value role offset tokens
    refine endsPlain_concat row ?_ ?_
    · rw [place_kind]
      exact isNamed
    · rw [place_kind]
      exact (inside (.none, value) (by simp)).proper
  · intro name found
    have plays := List.find?_some found
    cases place_children _ _ role offset tokens name (List.mem_of_find?_eq_some found) with
    | extra extra => cases plays
    | @child child member offset tokens =>
        rw [place_role] at plays
        have plays := eq_of_beq plays
        rcases List.mem_append.mp member with member | member
        · rcases List.mem_append.mp member with member | member
          · rcases isName with rfl | ⟨l, rfl⟩
            · cases member
            · obtain rfl := List.mem_singleton.mp member
              rw [place_kind]
              rfl
          · rw [plain child member] at plays
            cases plays
        · obtain rfl := List.mem_singleton.mp member
          cases plays

/-- An argument is no token. -/
theorem standsFor_argument {node : Node} (stands : StandsFor node) (is : node.kind = .argument) :
    ∃ children role offset tokens, Grammar.Formed (.branch .argument children) ∧
      node = ((Tree.branch .argument children).place role offset tokens).node := by
  cases stands with
  | extra extra =>
      obtain ⟨filler, start, stop⟩ := extra
      cases filler <;> cases is
  | @tree tree formed role offset tokens =>
      rw [place_kind] at is
      cases formed with
      | @leaf kind l fits =>
          obtain rfl : kind = .argument := is
          exact False.elim fits
      | separator => cases is
      | @branch kind children fits inside =>
          obtain rfl : kind = .argument := is
          exact ⟨children, role, offset, tokens, .branch fits inside, rfl⟩

/-- The arguments of a parsed file end in their values. -/
theorem plainArguments_toNode {tree : Tree} (formed : Grammar.Formed tree)
    (program : tree.kind = .program) (tokens : List Token) :
    PlainArguments (tree.toNode tokens) := by
  intro argument inside is
  rcases toNode_standsFor formed tokens argument inside with rfl | stands
  · rw [toNode_kind, program] at is
    cases is
  · obtain ⟨children, role, offset, tokens, formed, rfl⟩ := standsFor_argument stands is
    exact plainArgument_place formed role offset tokens

/-- The slash that begins a comment separates an XML declaration from what follows. -/
theorem separates_slash : Separates '/' := ⟨by decide, by decide, by decide⟩

/-- A comment without an opening tag is not masked. -/
theorem mask_comment {body : List Char} (untagged : ¬['<', '?'] <:+: body)
    (before after : List Char) :
    mask (before ++ (blockComment body ++ after)) =
      mask before ++ (blockComment body ++ mask after) := by
  have star : Separates '*' := ⟨by decide, by decide, by decide⟩
  have inner : mask ('*' :: (body ++ ['*'])) = '*' :: (body ++ ['*']) := by
    have opened := mask_around star [] (body ++ ['*'])
    rw [mask_around star body [], mask_plain untagged] at opened
    exact opened
  calc mask (before ++ (blockComment body ++ after))
      = mask (before ++ '/' :: (('*' :: (body ++ ['*'])) ++ '/' :: after)) := by
        simp [blockComment]
    _ = mask before ++ (blockComment body ++ mask after) := by
        rw [mask_around separates_slash, mask_around separates_slash, inner]
        simp [blockComment]

/-- A block comment is put between two tokens of code, where no XML declaration stands. -/
structure Insertion (before body after : List Char) : Prop where
  closed : ¬['*', '/'] <:+: body
  untagged : ¬['<', '?'] <:+: body
  whole : mask (before ++ after) = mask before ++ mask after
  between : Between (mask before) (mask after)
  between' : Between (mask before) (blockComment body ++ mask after)

/-- No bracketed receiver in a text ends in a comment. -/
def ReceiversPlain (text : List Char) : Prop :=
  ∀ program, parse text none = .ok program → PlainReceivers program.root

/-- A comment does not count where it stands: it is in no name, variable or use declaration, and no
bracketed receiver ends in a comment with it or without it. -/
structure Harmless (before body after : List Char) : Prop where
  apart : ∀ program, parse (before ++ (blockComment body ++ after)) none = .ok program →
    program.root.Apart before.length (blockComment body).length
  receivers : ReceiversPlain (before ++ after)
  receivers' : ReceiversPlain (before ++ (blockComment body ++ after))

/-- A text and the text with comments put into it, one after the other. -/
inductive Commented : List Char → List Char → Prop where
  | same (text : List Char) : Commented text text
  | comment {text before body after : List Char} (commented : Commented text (before ++ after))
      (insertion : Insertion before body after) (harmless : Harmless before body after) :
      Commented text (before ++ (blockComment body ++ after))

/-- A text is parsed alike under every path. -/
theorem parse_path {text : List Char} {path : Option Text} {program : Program}
    (valid : parse text path = .ok program) (other : Option Text) :
    parse text other = .ok program :=
  parse_eq_ok.mpr (parse_eq_ok.mp valid)

/-- With one more comment a text is read as the same tree, whose tokens are moved. -/
theorem Insertion.reads {before body after : List Char} (insertion : Insertion before body after)
    {path : Option Text} {program : Program} (valid : parse (before ++ after) path = .ok program) :
    ∃ tree tokens tokens', Grammar.Formed tree ∧ tree.kind = .program ∧
      Rows before.length (blockComment body).length tokens tokens' ∧
      program = ⟨.ofChars (before ++ after), tree.toNode tokens⟩ ∧
      parse (before ++ (blockComment body ++ after)) path =
        .ok ⟨.ofChars (before ++ (blockComment body ++ after)), tree.toNode tokens'⟩ := by
  have rows := rows_comment insertion.closed insertion.between insertion.between'
  rw [maskLength, ← insertion.whole, ← mask_comment insertion.untagged] at rows
  obtain ⟨tree, reads, rfl⟩ := parse_eq_ok.mp valid
  obtain ⟨formed, isProgram⟩ := read_formed reads
  exact ⟨tree, _, _, formed, isProgram, rows, rfl,
    parse_eq_ok.mpr ⟨tree, read_congr rows.lexemes reads, rfl⟩⟩

/-- With one more comment a text is still valid and the same calls are found. -/
theorem findings_comment {before body after : List Char} (insertion : Insertion before body after)
    (harmless : Harmless before body after) {path : Option Text} {program : Program}
    (valid : parse (before ++ after) path = .ok program) :
    ∃ program', parse (before ++ (blockComment body ++ after)) path = .ok program' ∧
      ∀ targets, findings program' targets = findings program targets := by
  have receivers := harmless.receivers program (parse_path valid none)
  obtain ⟨tree, tokens, tokens', formed, isProgram, rows, rfl, valid'⟩ := insertion.reads valid
  refine ⟨_, valid', fun targets => ?_⟩
  have apart := harmless.apart _ (parse_path valid' none)
  have written : Widens before.length (blockComment body).length (before ++ after)
      (before ++ (blockComment body ++ after)) := .mk rfl rfl
  have masked : Widens before.length (blockComment body).length (mask (before ++ after))
      (mask (before ++ (blockComment body ++ after))) := by
    rw [insertion.whole, mask_comment insertion.untagged]
    exact .mk (maskLength before) rfl
  refine (findings_congr ⟨?_, ?_⟩ ⟨?_, receivers, ?_⟩
    ⟨?_, harmless.receivers' _ (parse_path valid' none), ?_⟩ targets).symm
  · exact toNode_alike written formed isProgram rows apart
  · exact toNode_alike masked formed isProgram rows apart
  · exact (toNode_kind tree _).trans isProgram
  · exact plainArguments_toNode formed isProgram _
  · exact (toNode_kind tree _).trans isProgram
  · exact plainArguments_toNode formed isProgram _

/-- Comments between the tokens of a valid text change neither the calls that are found nor what
becomes of their keys. -/
theorem findings_commented {text other : List Char} (commented : Commented text other)
    {path : Option Text} {program : Program} (valid : parse text path = .ok program) :
    ∃ program', parse other path = .ok program' ∧
      ∀ targets, findings program' targets = findings program targets := by
  induction commented with
  | same => exact ⟨program, valid, fun _ => rfl⟩
  | comment commented insertion harmless inductionHypothesis =>
      obtain ⟨middle, valid, same⟩ := inductionHypothesis
      obtain ⟨program', valid', same'⟩ := findings_comment insertion harmless valid
      exact ⟨program', valid', fun targets => (same' targets).trans (same targets)⟩

/-- A comment in front of the first argument of a method. -/
theorem insertion_argument :
    Insertion "<?php $translator->get(".toList " c ".toList "'a');".toList where
  closed := by decide
  untagged := by decide
  whole := by decide
  between := by decide +kernel
  between' := by decide +kernel

/-- A test that the tree of a text passes holds of all trees of the text. -/
theorem forall_parse {text : List Char} (test : Program → Bool)
    (passes : (parse text none).toOption.all test = true) :
    ∀ program, parse text none = .ok program → test program = true := by
  intro program valid
  simpa [valid, Except.toOption] using passes

/-- Without brackets around receivers no comment ends one. -/
theorem receiversPlain_unbracketed {text : List Char}
    (unbracketed : ((parse text none).toOption.all fun program => program.root.preorder.all fun call =>
      (call.child? .object).all (·.kind != .parenthesized)) = true) : ReceiversPlain text := by
  intro program valid call inside object found
  have each := List.all_eq_true.mp (forall_parse _ unbracketed program valid) call inside
  rw [found, Option.all_some] at each
  exact .other (by simpa using each)

/-- A comment in front of an argument does not count. -/
theorem harmless_argument :
    Harmless "<?php $translator->get(".toList " c ".toList "'a');".toList where
  apart program valid := of_decide_eq_true (forall_parse
    (fun program => program.root.Apart 23 7) (by decide +kernel) program valid)
  receivers := receiversPlain_unbracketed (by decide +kernel)
  receivers' := receiversPlain_unbracketed (by decide +kernel)

/-- The call with a comment among its arguments has its own key. -/
theorem findings_commented_argument :
    ∃ program program',
      Commented "<?php $translator->get('a');".toList "<?php $translator->get(/* c */'a');".toList ∧
        parse "<?php $translator->get('a');".toList none = .ok program ∧
        parse "<?php $translator->get(/* c */'a');".toList none = .ok program' ∧
        ∀ targets, findings program' targets = findings program targets := by
  have commented :=
    Commented.comment (.same "<?php $translator->get('a');".toList) insertion_argument harmless_argument
  have valid : (parse "<?php $translator->get('a');".toList none).isOk = true := by decide +kernel
  cases parsed : parse "<?php $translator->get('a');".toList none with
  | error e =>
      rw [parsed] at valid
      cases valid
  | ok program =>
      obtain ⟨program', valid', same⟩ := findings_commented commented parsed
      exact ⟨program, program', commented, rfl, valid', same⟩

/-- A comment behind the variable of a bracketed receiver. -/
theorem insertion_bracketed :
    Insertion "<?php ($translator".toList " c ".toList ")->get('a');".toList where
  closed := by decide
  untagged := by decide
  whole := by decide
  between := by decide +kernel
  between' := by decide +kernel

/-- The labels of the calls that are found in a text. -/
def labelsOf (text : List Char) : Option (List Text) :=
  (parse text none).toOption.bind fun program =>
    (findings program .default).toOption.map (·.map (·.label))

/-- With such a comment a call is lost. -/
theorem findings_comment_lost :
    ∃ before body after, Insertion before body after ∧
      labelsOf (before ++ after) = some [Text.ofString "translator->get"] ∧
      labelsOf (before ++ (blockComment body ++ after)) = some [] :=
  ⟨_, _, _, insertion_bracketed, by decide +kernel, by decide +kernel⟩

end Untranslated.Call
