/-
This file tells when the scan of a file that is parsed does not come to its end.
The first node whose call or key has an oversized escape ends it.
-/

import Untranslated.Proofs.Call.Failures
import Untranslated.Scan.FileScan

namespace Untranslated.Scan

open Call (CallFails KeyFails Site Targets siteAt? siteAt?_eq_error resolution_eq_error)
open FileTree (Path)
open Php (Aliases Node Program)
open Php.Literal (EscapeError OversizedLiteral)

/-- A node ends the scan if it cannot be told whether it is a call, or which key the call has. -/
inductive NodeFails (program : Program) (targets : Targets) (node : Node) (e : EscapeError) :
    Prop where
  | call {object name : Node}
      (fails : CallFails program.source.written program.aliases node object name e) :
      NodeFails program targets node e
  | key {site : Site} {argument value : Node}
      (found : siteAt? program targets program.aliases node = .ok (some site))
      (fails : KeyFails program site argument value e) : NodeFails program targets node e

section

variable {program : Program} {targets : Targets} {node : Node} {e : EscapeError}

/-- The scan of a node fails just when the node does. -/
theorem scanNode_eq_error (scan : FileScan) :
    scanNode program targets program.aliases scan node = .error e ↔
      NodeFails program targets node e := by
  have untold : siteAt? program targets program.aliases node = .error e ↔
      ∃ object name, CallFails program.source.written program.aliases node object name e :=
    siteAt?_eq_error
  constructor
  · intro failed
    cases found : siteAt? program targets program.aliases node with
    | error own =>
        simp only [scanNode, found, bind, Except.bind, Except.error.injEq] at failed
        obtain ⟨object, name, fails⟩ := untold.mp (failed ▸ found)
        exact .call fails
    | ok site =>
        cases site with
        | none => simp [scanNode, found, bind, Except.bind, pure, Except.pure] at failed
        | some site =>
            cases resolved : site.resolution program with
            | error own =>
                simp only [scanNode, found, resolved, bind, Except.bind,
                  Except.error.injEq] at failed
                obtain ⟨argument, value, fails⟩ := resolution_eq_error.mp (failed ▸ resolved)
                exact .key found fails
            | ok resolution =>
                simp [scanNode, found, resolved, bind, Except.bind, pure, Except.pure] at failed
  · rintro (fails | ⟨found, fails⟩)
    · simp only [scanNode, untold.mpr ⟨_, _, fails⟩, bind, Except.bind]
    · simp only [scanNode, found, resolution_eq_error.mpr ⟨_, _, fails⟩, bind, Except.bind]

/-- A node ends the scan for one of the literals in it. -/
theorem NodeFails.literal (fails : NodeFails program targets node e) :
    ∃ literal ∈ node.preorder, OversizedLiteral program.source.written literal e ∨
      OversizedLiteral program.source.masked literal e := by
  cases fails with
  | call fails =>
      obtain ⟨inside, fails'⟩ := fails.fails.inside
      obtain ⟨literal, within, oversized⟩ := fails'.literal
      have receiver := Node.mem_preorder_of_found fails.receiver inside
      exact ⟨literal, Node.mem_preorder_trans receiver within, .inl oversized⟩
  | @key site argument value found fails =>
      obtain ⟨literal, within, oversized⟩ := fails.fails.literal
      have bound := Call.keyArgument?_mem fails.bound
      rw [Call.siteAt?_arguments found] at bound
      exact ⟨literal, Node.mem_preorder_trans (Call.mem_argumentsOf bound).1
        (Node.mem_preorder_of_last fails.last within), .inr oversized⟩

end

/-- In a file that is parsed, a call has no resolution just when the value of its key has an
oversized escape. The scan fails for the first node that has one where it is looked at. It comes to
its end if no literal of the file has an oversized escape. -/
theorem scanFile_fails_iff {directives : List Text} {file : SourceFile} {program : Program}
    (parsed : parseFile directives file = .ok program) (targets : Targets) :
    (∀ node site, siteAt? program targets program.aliases node = .ok (some site) →
      ∀ e, site.resolution program = .error e ↔
        ∃ argument value, KeyFails program site argument value e) ∧
      (∀ e, scanFile targets directives file = .error e ↔
        ∃ escape before node after, e = .escape escape ∧
          program.root.preorder = before ++ node :: after ∧
          (∀ earlier ∈ before, ∀ other, ¬NodeFails program targets earlier other) ∧
          NodeFails program targets node escape) ∧
      ((∀ literal ∈ program.root.preorder, ∀ escape,
          ¬OversizedLiteral program.source.written literal escape ∧
            ¬OversizedLiteral program.source.masked literal escape) →
        ∃ scan, scanFile targets directives file = .ok scan) := by
  have failing (e : ScanError) : scanFile targets directives file = .error e ↔
      ∃ escape before node after, e = .escape escape ∧
        program.root.preorder = before ++ node :: after ∧
        (∀ earlier ∈ before, ∀ other, ¬NodeFails program targets earlier other) ∧
        NodeFails program targets node escape := by
    have run (escape : EscapeError) : scanProgram file.path.text program targets = .error escape ↔
        ∃ before node after, program.root.preorder = before ++ node :: after ∧
          (∀ earlier ∈ before, ∀ other, ¬NodeFails program targets earlier other) ∧
          NodeFails program targets node escape := by
      rw [scanProgram, Node.nodes_eq_preorder]
      exact foldlM_eq_error (NodeFails program targets) fun scan node other =>
        scanNode_eq_error scan
    have scanned : scanFile targets directives file =
        (scanProgram file.path.text program targets).mapError .escape := by
      rw [scanFile, parsed]
      rfl
    rw [scanned]
    simp only [exists_and_left, ← run]
    cases scanProgram file.path.text program targets <;> simp [Except.mapError, eq_comm]
  refine ⟨fun node site _ e => resolution_eq_error, failing, fun plain => ?_⟩
  cases scanned : scanFile targets directives file with
  | ok scan => exact ⟨scan, rfl⟩
  | error e =>
      obtain ⟨escape, before, node, after, -, row, -, fails⟩ := (failing e).mp scanned
      obtain ⟨literal, inside, oversized⟩ := fails.literal
      have within : literal ∈ program.root.preorder :=
        Node.mem_preorder_trans (by simp [row]) inside
      obtain ⟨written, masked⟩ := plain literal within escape
      exact absurd oversized (not_or.mpr ⟨written, masked⟩)

/-- A file of code with this text. -/
def codeFile (text : String) : SourceFile := ⟨Path.ofText "a.php", text.toList, .code⟩

/-- A file without escapes is scanned to its end. -/
theorem scanFile_fails_iff_plainText :
    ∃ program, parseFile [] (codeFile "<?php __('a' . 'b');") = .ok program ∧
      ∃ scan, scanFile .default [] (codeFile "<?php __('a' . 'b');") = .ok scan := by
  have plain : (parseFile [] (codeFile "<?php __('a' . 'b');")).toOption.map (fun program =>
      program.root.preorder.all fun node =>
        node.kind != .doubleQuoted && node.kind != .heredoc) = some true := by decide +kernel
  cases parsed : parseFile [] (codeFile "<?php __('a' . 'b');") with
  | error e => simp [parsed, Except.toOption] at plain
  | ok program =>
      rw [parsed] at plain
      have kinds := List.all_eq_true.mp (Option.some.inj plain)
      have proper (source : List Char) (literal : Node) (inside : literal ∈ program.root.preorder)
          (escape : EscapeError) : ¬OversizedLiteral source literal escape := by
        have kind := kinds literal inside
        rintro (⟨is⟩ | ⟨is⟩) <;> simp [is] at kind
      obtain ⟨-, -, completes⟩ := scanFile_fails_iff parsed .default
      exact ⟨program, rfl, completes fun literal inside escape =>
        ⟨proper _ literal inside escape, proper _ literal inside escape⟩⟩

/-- Whether the key of a call cannot be told for a code point beyond the last one. -/
def resolvesBeyond (program : Program) (targets : Targets) (node : Node) : Bool :=
  match siteAt? program targets program.aliases node with
  | .ok (some site) =>
    match site.resolution program with
    | .error .beyondUnicode => true
    | _ => false
  | _ => false

/-- The text is parsed and a call is found in it, but the call has no resolution. -/
theorem scanFile_oversizedKey :
    ∃ program, parseFile [] (codeFile "<?php __(\"\\u\x7b110000\x7d\");") = .ok program ∧
      ∃ node site, siteAt? program .default program.aliases node = .ok (some site) ∧
        site.resolution program = .error .beyondUnicode := by
  have beyond : (parseFile [] (codeFile "<?php __(\"\\u\x7b110000\x7d\");")).toOption.map
      (fun program => program.root.preorder.any (resolvesBeyond program .default)) =
        some true := by decide +kernel
  cases parsed : parseFile [] (codeFile "<?php __(\"\\u\x7b110000\x7d\");") with
  | error e => simp [parsed, Except.toOption] at beyond
  | ok program =>
      rw [parsed] at beyond
      obtain ⟨node, -, resolves⟩ := List.any_eq_true.mp (Option.some.inj beyond)
      unfold resolvesBeyond at resolves
      split at resolves
      · next site found =>
        split at resolves
        · next untold => exact ⟨program, rfl, node, site, found, untold⟩
        · cases resolves
      · cases resolves

end Untranslated.Scan
