/-
This file relates the scan of a file to the call sites of its program.
Every call gives a key or a warning, and a key counts once.
-/

import Untranslated.Proofs.Php.Outline
import Untranslated.Proofs.Text.Order
import Untranslated.Scan.FileScan

namespace Untranslated.Scan

open Call (Reason Resolution Site Targets siteAt?)
open Php (Aliases Node Program)
open Php.Literal (EscapeError)

/-- A call site of a file, with what is known of its key. -/
structure FoundCall where
  path : Text
  site : Site
  resolution : Resolution

/-- The literal key of a call. -/
def FoundCall.key? (call : FoundCall) : Option Text :=
  match call.resolution with
  | .key key => some key
  | .rejected _ _ => none

/-- A rejected call is warned of at its own place. -/
def FoundCall.warning? (call : FoundCall) : Option Warning :=
  match call.resolution with
  | .key _ => none
  | .rejected reason argument =>
    some ⟨call.path, call.site.position.line, call.site.position.column, reason, argument⟩

/-- A call has either a key or a warning. -/
theorem FoundCall.key_or_warning (call : FoundCall) : call.key?.isSome = !call.warning?.isSome := by
  cases found : call.resolution <;> simp [key?, warning?, found]

/-- Keys and warnings share the calls among them. -/
theorem foundCalls_length (calls : List FoundCall) :
    (calls.filterMap FoundCall.key?).length + (calls.filterMap FoundCall.warning?).length =
      calls.length := by
  induction calls with
  | nil => rfl
  | cons call rest inductionHypothesis =>
      have either := call.key_or_warning
      cases key : call.key? <;> cases warning : call.warning? <;>
        simp only [key, warning, Option.isSome_none, Option.isSome_some, Bool.not_false,
          Bool.not_true, Bool.false_eq_true, Bool.true_eq_false] at either
      all_goals
        simp only [List.filterMap_cons, key, warning, List.length_cons]
        omega

/-- The call with the key that its site has. -/
def foundCall (path : Text) (program : Program) (site : Site) : Except EscapeError FoundCall :=
  (site.resolution program).map (⟨path, site, ·⟩)

/-- The calls at nodes, in their order. -/
def callsAt (targets : Targets) (path : Text) (program : Program) (nodes : List Node) :
    Except EscapeError (List FoundCall) := do
  let sites ← nodes.mapM (siteAt? program targets program.aliases)
  sites.reduceOption.mapM (foundCall path program)

/-- The calls of a file. Those of outer nodes come first, and then those further left. -/
def callsIn (targets : Targets) (path : Text) (program : Program) :
    Except EscapeError (List FoundCall) :=
  callsAt targets path program program.root.preorder

/-- The scan that the calls of a file lead to. -/
def FileScan.ofCalls (path : Text) (calls : List FoundCall) : FileScan where
  path := path
  keys := Text.unique (calls.filterMap FoundCall.key?)
  warnings := calls.filterMap FoundCall.warning?
  callSites := calls.length

/-- A further call is added to the scan. -/
theorem FileScan.ofCalls_append_singleton (path : Text) (calls : List FoundCall) (site : Site)
    (resolution : Resolution) :
    FileScan.ofCalls path (calls ++ [⟨path, site, resolution⟩]) =
      (FileScan.ofCalls path calls).add site resolution := by
  cases resolution with
  | key key =>
      have keys : [(⟨path, site, .key key⟩ : FoundCall)].filterMap FoundCall.key? = [key] := rfl
      have quiet : [(⟨path, site, .key key⟩ : FoundCall)].filterMap FoundCall.warning? = [] := rfl
      have kept : (Text.unique (calls.filterMap FoundCall.key?)).contains key =
          decide (key ∈ calls.filterMap FoundCall.key?) := by
        rw [← List.elem_eq_contains, List.elem_eq_mem]
        simp only [Text.uniqueMember]
      simp only [ofCalls, add, kept, decide_eq_true_eq, List.filterMap_append, keys, quiet,
        Text.unique_append_singleton, List.append_nil, List.length_append, List.length_singleton]
      congr
  | rejected reason argument =>
      have keys : [(⟨path, site, .rejected reason argument⟩ : FoundCall)].filterMap
          FoundCall.key? = [] := rfl
      have warned : [(⟨path, site, .rejected reason argument⟩ : FoundCall)].filterMap
          FoundCall.warning? =
            [⟨path, site.position.line, site.position.column, reason, argument⟩] := rfl
      simp only [ofCalls, add, List.filterMap_append, keys, warned, List.append_nil,
        List.length_append, List.length_singleton]

section

variable {targets : Targets} {path : Text} {program : Program}

/-- A node that is no call site is passed over. -/
theorem callsAt_none {node : Node} (rest : List Node)
    (absent : siteAt? program targets program.aliases node = .ok none) :
    callsAt targets path program (node :: rest) = callsAt targets path program rest := by
  simp only [callsAt, List.mapM_cons, absent]
  cases rest.mapM (siteAt? program targets program.aliases) with
  | error e => rfl
  | ok sites => rfl

/-- A site whose key cannot be told makes the calls fail, and so does a later one. -/
theorem callsAt_some {node : Node} {site : Site} (rest : List Node)
    (present : siteAt? program targets program.aliases node = .ok (some site)) :
    (callsAt targets path program (node :: rest)).toOption =
      (site.resolution program).toOption.bind fun resolution =>
        (callsAt targets path program rest).toOption.map (⟨path, site, resolution⟩ :: ·) := by
  simp only [callsAt, List.mapM_cons, present]
  cases rest.mapM (siteAt? program targets program.aliases) with
  | error e => cases site.resolution program <;> rfl
  | ok sites =>
      change (Except.toOption ((site :: sites.reduceOption).mapM (foundCall path program))) =
        (site.resolution program).toOption.bind fun resolution =>
          (sites.reduceOption.mapM (foundCall path program)).toOption.map
            (⟨path, site, resolution⟩ :: ·)
      rw [List.mapM_cons]
      cases resolved : site.resolution program with
      | error e => simp [foundCall, resolved, Except.map, bind, Except.bind, Except.toOption]
      | ok resolution =>
          simp only [foundCall, resolved, Except.map, bind, Except.bind, pure, Except.pure]
          cases sites.reduceOption.mapM (foundCall path program) <;> rfl

/-- A node that cannot be told ends the search. -/
theorem callsAt_error {node : Node} {e : EscapeError} (rest : List Node)
    (failed : siteAt? program targets program.aliases node = .error e) :
    callsAt targets path program (node :: rest) = .error e := by
  simp only [callsAt, List.mapM_cons, failed]
  rfl

/-- A scan takes up the calls at its nodes one after the other. -/
theorem foldlM_scanNode (nodes : List Node) (calls : List FoundCall) :
    (nodes.foldlM (scanNode program targets program.aliases)
        (FileScan.ofCalls path calls)).toOption =
      (callsAt targets path program nodes).toOption.map fun later =>
        FileScan.ofCalls path (calls ++ later) := by
  induction nodes generalizing calls with
  | nil =>
      have none : callsAt targets path program [] = .ok [] := rfl
      simp [none, pure, Except.pure, Except.toOption]
  | cons node rest inductionHypothesis =>
      rw [List.foldlM_cons]
      cases found : siteAt? program targets program.aliases node with
      | error e =>
          rw [callsAt_error rest found]
          simp [scanNode, found, bind, Except.bind, Except.toOption]
      | ok site? =>
          cases site? with
          | none =>
              rw [callsAt_none rest found, ← inductionHypothesis calls]
              simp [scanNode, found, bind, Except.bind, pure, Except.pure]
          | some site =>
              rw [callsAt_some rest found]
              cases resolved : site.resolution program with
              | error e => simp [scanNode, found, resolved, bind, Except.bind, Except.toOption]
              | ok resolution =>
                  have next := inductionHypothesis (calls ++ [⟨path, site, resolution⟩])
                  rw [FileScan.ofCalls_append_singleton] at next
                  simp only [scanNode, found, resolved, bind, Except.bind, pure, Except.pure]
                  rw [next]
                  cases callsAt targets path program rest <;>
                    simp [Except.toOption, List.append_assoc]

/-- A scan succeeds just when all calls of the file can be told, and then it consists of them. -/
theorem scanProgram_callsIn (path : Text) (program : Program) (targets : Targets) :
    (scanProgram path program targets).toOption =
      (callsIn targets path program).toOption.map (FileScan.ofCalls path) := by
  rw [scanProgram, Node.nodes_eq_preorder]
  exact foldlM_scanNode program.root.preorder []

end

end Untranslated.Scan
