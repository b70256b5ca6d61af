/-
This file tells at which nodes a call or its key cannot be told for an oversized escape.
-/

import Untranslated.Proofs.Call.Findings
import Untranslated.Proofs.Php.Escapes

namespace Untranslated.Call

open Php (Aliases Node Program)
open Php.Literal (EscapeError FailsIn value?_eq_error)

/-- A call site has the arguments of its node. -/
theorem siteAt?_arguments {program : Program} {targets : Targets} {aliases : Aliases} {node : Node}
    {site : Site} (found : siteAt? program targets aliases node = .ok (some site)) :
    site.arguments = argumentsOf node := by
  unfold siteAt? at found
  obtain ⟨label, -, found⟩ := bind_eq_ok.mp found
  cases label <;> cases found
  rfl

/-- The value of the argument for the key has an oversized escape in the masked text. -/
structure KeyFails (program : Program) (site : Site) (argument value : Node) (e : EscapeError) :
    Prop where
  bound : keyArgument? program.source.masked site.arguments = some argument
  last : argument.namedChildren.getLast? = some value
  fails : FailsIn program.source.masked value e

/-- A key cannot be resolved just when its value has an oversized escape. -/
theorem resolution_eq_error {program : Program} {site : Site} {e : EscapeError} :
    site.resolution program = .error e ↔
      ∃ argument value, KeyFails program site argument value e := by
  constructor
  · intro failed
    unfold Site.resolution resolve at failed
    split at failed
    · cases failed
    · next argument bound =>
      split at failed
      · cases failed
      · next value last =>
        simp only at failed
        split at failed
        · cases failed
        · cases told : Php.Literal.value? program.source.masked value with
          | error own =>
              rw [told] at failed
              cases failed
              exact ⟨argument, value, bound, last, value?_eq_error.mp told⟩
          | ok key =>
              rw [told] at failed
              cases key <;> cases failed
  · rintro ⟨argument, value, bound, last, fails⟩
    have single : (value.kind == .spread) = false := beq_eq_false_iff_ne.mpr fails.notSpread
    simp only [Site.resolution, resolve, bound, last, single, value?_eq_error.mpr fails]
    rfl

/-- A receiver is a container that is asked for a service whose name has an oversized escape. -/
inductive ReceiverFails (source : List Char) (aliases : Aliases) :
    Node → Node → EscapeError → Prop where
  | service {object name : Node} {function : Text} {e : EscapeError}
      (is : object.kind = .functionCall)
      (named : plainName? source (object.child? .function) = some function)
      (container : isContainer (aliases.functions.resolve function) = true)
      (first : (argumentsOf object).head?.bind (·.namedChildren.getLast?) = some name)
      (fails : FailsIn source name e) : ReceiverFails source aliases object name e
  | bracketed {object inner name : Node} {e : EscapeError} (is : object.kind = .parenthesized)
      (last : object.namedChildren.getLast? = some inner)
      (inside : ReceiverFails source aliases inner name e) :
      ReceiverFails source aliases object name e

section

variable {source : List Char} {aliases : Aliases} {object name : Node} {e : EscapeError}

/-- A service has no name just when a container is asked for it by a faulty text. -/
theorem serviceName?_eq_error : serviceName? source aliases object = .error e ↔
    ∃ function name, plainName? source (object.child? .function) = some function ∧
      isContainer (aliases.functions.resolve function) = true ∧
      (argumentsOf object).head?.bind (·.namedChildren.getLast?) = some name ∧
      FailsIn source name e := by
  unfold serviceName?
  cases plainName? source (object.child? .function) with
  | none => simp
  | some function =>
      simp only [Option.some.injEq, ← value?_eq_error]
      cases container : isContainer (aliases.functions.resolve function) with
      | false => simp [container]
      | true =>
          cases (argumentsOf object).head?.bind (·.namedChildren.getLast?) with
          | none => simp
          | some name => simp [container]

/-- A faulty service makes the receiver around it fail. -/
theorem ReceiverFails.error (fails : ReceiverFails source aliases object name e) :
    receiver? source aliases object = .error e := by
  induction fails with
  | service is named container first fails =>
      rw [receiver?]
      simp only [is]
      exact serviceName?_eq_error.mpr ⟨_, _, named, container, first, fails⟩
  | bracketed is last inside inductionHypothesis =>
      rw [receiver?_parenthesized source aliases is, last]
      exact inductionHypothesis

/-- A receiver that fails has a faulty service in it. -/
theorem receiverFails_of_error (failed : receiver? source aliases object = .error e) :
    ∃ name, ReceiverFails source aliases object name e := by
  induction object using Node.bySize with
  | step object inductionHypothesis =>
      cases is : object.kind with
      | parenthesized =>
          rw [receiver?_parenthesized source aliases is] at failed
          split at failed
          · next inner last =>
            have smaller := Node.sizeOfNamed (List.mem_of_getLast? last)
            obtain ⟨name, inside⟩ := inductionHypothesis _ smaller failed
            exact ⟨name, .bracketed is last inside⟩
          · cases failed
      | functionCall =>
          rw [receiver?] at failed
          simp only [is] at failed
          obtain ⟨function, name, named, container, first, fails⟩ :=
            serviceName?_eq_error.mp failed
          exact ⟨name, .service is named container first fails⟩
      | _ =>
          rw [receiver?] at failed
          simp only [is] at failed
          cases failed

/-- A receiver fails just when a container in it is asked for a faulty service. -/
theorem receiver?_eq_error : receiver? source aliases object = .error e ↔
    ∃ name, ReceiverFails source aliases object name e :=
  ⟨receiverFails_of_error, fun ⟨_, fails⟩ => fails.error⟩

/-- The name of the service stands inside the receiver. -/
theorem ReceiverFails.inside (fails : ReceiverFails source aliases object name e) :
    name ∈ object.preorder ∧ FailsIn source name e := by
  induction fails with
  | @service object name function e is named container first fails =>
      obtain ⟨argument, head, last⟩ := Option.bind_eq_some_iff.mp first
      obtain ⟨within, -⟩ := mem_argumentsOf (List.mem_of_head? head)
      have value := Node.mem_preorder_of_last last name.self_mem_preorder
      exact ⟨Node.mem_preorder_trans within value, fails⟩
  | bracketed is last inside inductionHypothesis =>
      exact ⟨Node.mem_preorder_of_last last inductionHypothesis.1, inductionHypothesis.2⟩

end

/-- At a node it cannot be told whether a method of a target is called. -/
structure CallFails (source : List Char) (aliases : Aliases) (node object name : Node)
    (e : EscapeError) : Prop where
  is : node.kind = .memberCall ∨ node.kind = .nullsafeCall
  receiver : node.child? .object = some object
  fails : ReceiverFails source aliases object name e

/-- A method call fails just when its receiver does. -/
theorem methodLabel?_eq_error {source : List Char} {targets : Targets} {aliases : Aliases}
    {node : Node} {e : EscapeError} : methodLabel? source targets aliases node = .error e ↔
      ∃ object, node.child? .object = some object ∧ receiver? source aliases object = .error e := by
  unfold methodLabel?
  cases node.child? .object with
  | none =>
      simp only [bind_eq_error]
      cases plainName? source (node.child? .name) <;> simp [pure, Except.pure]
  | some object =>
      simp only [Option.some.injEq, exists_eq_left', bind_eq_error, or_iff_left_iff_imp]
      rintro ⟨receiver, -, failed⟩
      split at failed
      · split at failed <;> cases failed
      · cases failed

/-- A node fails just when it is a method call with a receiver that fails. -/
theorem siteAt?_eq_error {program : Program} {targets : Targets} {aliases : Aliases} {node : Node}
    {e : EscapeError} : siteAt? program targets aliases node = .error e ↔
      ∃ object name, CallFails program.source.written aliases node object name e := by
  have label : siteAt? program targets aliases node = .error e ↔
      label? program.source.written targets aliases node = .error e := by
    unfold siteAt?
    cases label? program.source.written targets aliases node with
    | error own => simp [bind, Except.bind]
    | ok label => cases label <;> simp [bind, Except.bind, pure, Except.pure]
  have method : methodLabel? program.source.written targets aliases node = .error e ↔
      ∃ object, node.child? .object = some object ∧
        ∃ name, ReceiverFails program.source.written aliases object name e := by
    simp only [methodLabel?_eq_error, receiver?_eq_error]
  rw [label]
  constructor
  · intro failed
    unfold label? at failed
    split at failed
    · cases failed
    · cases failed
    · next is =>
      obtain ⟨object, found, name, fails⟩ := method.mp failed
      exact ⟨object, name, .inl is, found, fails⟩
    · next is =>
      obtain ⟨object, found, name, fails⟩ := method.mp failed
      exact ⟨object, name, .inr is, found, fails⟩
    · cases failed
  · rintro ⟨object, name, is, found, fails⟩
    rw [label?]
    rcases is with is | is <;> rw [is] <;> exact method.mpr ⟨object, found, name, fails⟩

end Untranslated.Call
