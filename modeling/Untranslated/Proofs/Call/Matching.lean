/-
This file tells what it takes for a call to be found: the names in it, and the names of the targets.
-/

import Untranslated.Proofs.Call.Failures

namespace Untranslated.Call

open Php (Aliases Node Program Role)
open Php.Literal (EscapeError value?)

/-- A child of a node is a name that is written so. -/
def HasName (source : List Char) (node : Node) (role : Role) (written : Text) : Prop :=
  ∃ name, node.child? role = some name ∧ (name.kind = .name ∨ name.kind = .qualifiedName) ∧
    name.text source = written

/-- A name is read from a child just when the child is written so. -/
theorem plainName?_eq_some {source : List Char} {node : Node} {role : Role} {written : Text} :
    plainName? source (node.child? role) = some written ↔ HasName source node role written := by
  unfold HasName
  cases node.child? role with
  | none => simp [plainName?]
  | some name => simp [plainName?]

/-- The object of a method call, and the name that it goes by. -/
inductive IsReceiver (source : List Char) (aliases : Aliases) : Node → Text → Prop where
  | variable {object : Node} (is : object.kind = .variable) :
      IsReceiver source aliases object ((object.text source).dropWhile (·.is '$'))
  | property {object : Node} {name : Text}
      (is : object.kind = .member ∨ object.kind = .nullsafeMember)
      (named : HasName source object .name name) : IsReceiver source aliases object name
  | service {object argument value : Node} {function service : Text}
      (is : object.kind = .functionCall) (named : HasName source object .function function)
      (container : isContainer (aliases.functions.resolve function) = true)
      (first : (argumentsOf object).head? = some argument)
      (last : argument.namedChildren.getLast? = some value)
      (told : value? source value = .ok (some service)) : IsReceiver source aliases object service
  | bracketed {object inner : Node} {name : Text} (is : object.kind = .parenthesized)
      (last : object.namedChildren.getLast? = some inner)
      (inside : IsReceiver source aliases inner name) : IsReceiver source aliases object name

section

variable {source : List Char} {aliases : Aliases} {object : Node} {name : Text}

/-- A service is named by the literal that a container is given first. -/
theorem serviceName?_eq_some : serviceName? source aliases object = .ok (some name) ↔
    ∃ function argument value, HasName source object .function function ∧
      isContainer (aliases.functions.resolve function) = true ∧
      (argumentsOf object).head? = some argument ∧
      argument.namedChildren.getLast? = some value ∧ value? source value = .ok (some name) := by
  simp only [← plainName?_eq_some]
  unfold serviceName?
  cases plainName? source (object.child? .function) with
  | none => simp
  | some function =>
      cases container : isContainer (aliases.functions.resolve function) with
      | false => simp [container]
      | true =>
          cases (argumentsOf object).head? with
          | none => simp [container]
          | some argument =>
              cases last : argument.namedChildren.getLast? <;> simp [container, last]

/-- A receiver that the rules allow is read by its name. -/
theorem IsReceiver.told (receives : IsReceiver source aliases object name) :
    receiver? source aliases object = .ok (some name) := by
  induction receives with
  | «variable» is =>
      rw [receiver?]
      simp only [is]
  | property is named =>
      rw [receiver?]
      rcases is with is | is <;> simp only [is, plainName?_eq_some.mpr named]
  | service is named container first last told =>
      rw [receiver?]
      simp only [is]
      exact serviceName?_eq_some.mpr ⟨_, _, _, named, container, first, last, told⟩
  | bracketed is last inside inductionHypothesis =>
      rw [receiver?_parenthesized source aliases is, last]
      exact inductionHypothesis

/-- A receiver that is read by a name is one that the rules allow. -/
theorem isReceiver_of_told (told : receiver? source aliases object = .ok (some name)) :
    IsReceiver source aliases object name := by
  induction object using Node.bySize with
  | step object inductionHypothesis =>
      cases is : object.kind with
      | «variable» =>
          rw [receiver?] at told
          simp only [is, Except.ok.injEq, Option.some.injEq] at told
          subst told
          exact .variable is
      | member =>
          rw [receiver?] at told
          simp only [is, Except.ok.injEq] at told
          exact .property (.inl is) (plainName?_eq_some.mp told)
      | nullsafeMember =>
          rw [receiver?] at told
          simp only [is, Except.ok.injEq] at told
          exact .property (.inr is) (plainName?_eq_some.mp told)
      | functionCall =>
          rw [receiver?] at told
          simp only [is] at told
          obtain ⟨function, argument, value, named, container, first, last, told⟩ :=
            serviceName?_eq_some.mp told
          exact .service is named container first last told
      | parenthesized =>
          rw [receiver?_parenthesized source aliases is] at told
          split at told
          · next inner last =>
            have smaller := Node.sizeOfNamed (List.mem_of_getLast? last)
            exact .bracketed is last (inductionHypothesis _ smaller told)
          · cases told
      | _ =>
          rw [receiver?] at told
          simp only [is] at told
          cases told

/-- A receiver is read by a name just when the rules allow it. -/
theorem receiver?_eq_some :
    receiver? source aliases object = .ok (some name) ↔ IsReceiver source aliases object name :=
  ⟨isReceiver_of_told, IsReceiver.told⟩

end

/-- A call of a target, and its label. -/
inductive Calls (source : List Char) (targets : Targets) (aliases : Aliases) :
    Node → Text → Prop where
  | function {call : Node} {name : Text} (is : call.kind = .functionCall)
      (named : HasName source call .function name)
      (configured : Text.lower (aliases.functions.resolve name) ∈ targets.functions) :
      Calls source targets aliases call (aliases.functions.resolve name)
  | static {call : Node} {scope method : Text} (is : call.kind = .staticCall)
      (owner : HasName source call .scope scope) (named : HasName source call .name method)
      (configured : (Text.lower (aliases.classes.resolve scope), Text.lower method) ∈
        targets.statics) :
      Calls source targets aliases call (aliases.classes.resolve scope ++ "::" ++ method)
  | method {call object : Node} {receiver method : Text}
      (is : call.kind = .memberCall ∨ call.kind = .nullsafeCall)
      (found : call.child? .object = some object)
      (receives : IsReceiver source aliases object receiver)
      (named : HasName source call .name method)
      (configured : (Text.lower receiver, Text.lower method) ∈ targets.methods) :
      Calls source targets aliases call (receiver ++ "->" ++ method)

section

variable {source : List Char} {targets : Targets} {aliases : Aliases} {call : Node} {label : Text}

/-- A call of a function is a call of a target just when its name resolves to one. -/
theorem functionLabel?_eq_some : functionLabel? source targets aliases call = some label ↔
    ∃ name, HasName source call .function name ∧
      Text.lower (aliases.functions.resolve name) ∈ targets.functions ∧
      label = aliases.functions.resolve name := by
  simp only [← plainName?_eq_some]
  unfold functionLabel?
  cases plainName? source (call.child? .function) with
  | none => simp
  | some name => simp [eq_comm]

/-- A static call is a call of a target just when its class and its method make up one. -/
theorem staticLabel?_eq_some : staticLabel? source targets aliases call = some label ↔
    ∃ scope method, HasName source call .scope scope ∧ HasName source call .name method ∧
      (Text.lower (aliases.classes.resolve scope), Text.lower method) ∈ targets.statics ∧
      label = aliases.classes.resolve scope ++ "::" ++ method := by
  simp only [← plainName?_eq_some]
  unfold staticLabel?
  cases plainName? source (call.child? .scope) with
  | none => simp
  | some scope =>
      cases plainName? source (call.child? .name) with
      | none => simp
      | some method => simp [eq_comm]

/-- A method call is a call of a target just when its receiver and its method make up one. -/
theorem methodLabel?_eq_some : methodLabel? source targets aliases call = .ok (some label) ↔
    ∃ object receiver method, call.child? .object = some object ∧
      IsReceiver source aliases object receiver ∧ HasName source call .name method ∧
      (Text.lower receiver, Text.lower method) ∈ targets.methods ∧
      label = receiver ++ "->" ++ method := by
  simp only [← plainName?_eq_some, ← receiver?_eq_some]
  unfold methodLabel?
  cases call.child? .object with
  | none =>
      cases plainName? source (call.child? .name) <;>
        simp [bind, Except.bind, pure, Except.pure]
  | some object =>
      simp only [Option.some.injEq, exists_and_left, exists_eq_left']
      cases receiver? source aliases object with
      | error e => simp [bind, Except.bind]
      | ok receiver =>
          cases plainName? source (call.child? .name) with
          | none => cases receiver <;> simp [bind, Except.bind, pure, Except.pure]
          | some method =>
              cases receiver with
              | none => simp [bind, Except.bind, pure, Except.pure]
              | some receiver =>
                  by_cases configured :
                      (Text.lower receiver, Text.lower method) ∈ targets.methods <;>
                    simp [bind, Except.bind, pure, Except.pure, configured, eq_comm]

/-- A node has a label just when it is a call of a target. -/
theorem label?_eq_some : label? source targets aliases call = .ok (some label) ↔
    Calls source targets aliases call label := by
  constructor
  · intro told
    unfold label? at told
    split at told
    · next is =>
      obtain ⟨name, named, configured, rfl⟩ :=
        functionLabel?_eq_some.mp (Except.ok.inj told)
      exact .function is named configured
    · next is =>
      obtain ⟨scope, method, owner, named, configured, rfl⟩ :=
        staticLabel?_eq_some.mp (Except.ok.inj told)
      exact .static is owner named configured
    · next is =>
      obtain ⟨object, receiver, method, found, receives, named, configured, rfl⟩ :=
        methodLabel?_eq_some.mp told
      exact .method (.inl is) found receives named configured
    · next is =>
      obtain ⟨object, receiver, method, found, receives, named, configured, rfl⟩ :=
        methodLabel?_eq_some.mp told
      exact .method (.inr is) found receives named configured
    · cases told
  · rintro calls
    cases calls with
    | function is named configured =>
        rw [label?, is]
        exact congrArg Except.ok (functionLabel?_eq_some.mpr ⟨_, named, configured, rfl⟩)
    | static is owner named configured =>
        rw [label?, is]
        exact congrArg Except.ok (staticLabel?_eq_some.mpr ⟨_, _, owner, named, configured, rfl⟩)
    | method is found receives named configured =>
        rw [label?]
        rcases is with is | is <;> rw [is] <;>
          exact methodLabel?_eq_some.mpr ⟨_, _, _, found, receives, named, configured, rfl⟩

end

/-- The site of a call has its label, its place and its arguments. -/
theorem siteAt?_eq_some {program : Program} {targets : Targets} {aliases : Aliases} {node : Node}
    {site : Site} : siteAt? program targets aliases node = .ok (some site) ↔
      ∃ label, Calls program.source.written targets aliases node label ∧
        site = ⟨node, label, program.source.position node.start, argumentsOf node⟩ := by
  simp only [← label?_eq_some]
  unfold siteAt?
  cases label? program.source.written targets aliases node with
  | error e => simp [bind, Except.bind]
  | ok label => cases label <;> simp [bind, Except.bind, pure, Except.pure, eq_comm]

end Untranslated.Call
