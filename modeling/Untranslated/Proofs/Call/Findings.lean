/-
This file proves that the calls of a program and their keys depend on the outlines of its nodes.
Comments count only where one ends a bracketed receiver.
-/

import Mathlib.Data.List.Forall2
import Untranslated.Call.Key
import Untranslated.Proofs.Php.Outline

namespace Untranslated.Call

open Php (Alike AlikeOption Aliases Node Program)
open Php.Literal (EscapeError value?)

/-- What a call comes to: its key, or the reason why it has none. -/
def Resolution.outcome : Resolution → Except Reason Text
  | .key value => .ok value
  | .rejected reason _ => .error reason

/-- A call that is found, with its key. -/
structure Finding where
  label : Text
  outcome : Except EscapeError (Except Reason Text)

/-- The label and the key of a call site. -/
def Site.finding (program : Program) (site : Site) : Finding :=
  ⟨site.label, (site.resolution program).map Resolution.outcome⟩

/-- The labels of the calls of a program in their order, with their keys. -/
def findings (program : Program) (targets : Targets) : Except EscapeError (List Finding) :=
  (sites program targets).map (·.map (Site.finding program))

/-- What comes last in a node is no comment. -/
def EndsPlain (node : Node) : Prop := node.namedChildren.getLast? = node.parts.getLast?

/-- No brackets around a receiver end in a comment. -/
inductive PlainReceiver : Node → Prop where
  | other {object : Node} (kind : object.kind ≠ .parenthesized) : PlainReceiver object
  | bracketed {object : Node} (kind : object.kind = .parenthesized) (last : EndsPlain object)
      (inside : ∀ inner, object.namedChildren.getLast? = some inner → PlainReceiver inner) :
      PlainReceiver object

/-- An argument ends in its value. The name of its parameter is a plain word. -/
structure PlainArgument (argument : Node) : Prop where
  last : EndsPlain argument
  word : ∀ name, argument.child? .name = some name → name.kind = .name

/-- No bracketed receiver in a node ends in a comment. -/
def PlainReceivers (root : Node) : Prop :=
  ∀ call ∈ root.preorder, ∀ object, call.child? .object = some object → PlainReceiver object

/-- All arguments in a node end in their values. -/
def PlainArguments (root : Node) : Prop :=
  ∀ argument ∈ root.preorder, argument.kind = .argument → PlainArgument argument

section

variable {source other : List Char} {node twin : Node}

/-- Alike nodes that do not end in comments end in alike nodes. -/
theorem alike_last (alike : Alike source other node twin) (plain : EndsPlain node)
    (plain' : EndsPlain twin) :
    AlikeOption source other node.namedChildren.getLast? twin.namedChildren.getLast? := by
  rw [plain, plain']
  exact Php.alike_getLast? alike.parts

/-- Alike nodes have one name. -/
theorem plainName?_congr {found found' : Option Node}
    (alike : AlikeOption source other found found') :
    plainName? source found = plainName? other found' := by
  cases alike with
  | none => rfl
  | @some name name' alike =>
      simp only [plainName?, ← alike.kind]
      split
      · rename_i named
        have textual : name.kind.isTextual = true := by
          rcases Bool.or_eq_true_iff.mp named with is | is <;> rw [eq_of_beq is] <;> rfl
        rw [alike.text textual]
      · rfl

/-- Alike calls have the same arguments in outline. -/
theorem argumentsOf_congr (alike : Alike source other node twin) :
    (argumentsOf node).map (Node.outline source) = (argumentsOf twin).map (Node.outline other) := by
  have rows : AlikeOption source other (node.child? .arguments) (twin.child? .arguments) :=
    alike.child? (by decide)
  unfold argumentsOf
  generalize node.child? .arguments = row at rows ⊢
  generalize twin.child? .arguments = row' at rows ⊢
  cases rows with
  | none => rfl
  | some alike => exact alike.ofKind (by decide)

/-- Alike calls ask a container for one service. -/
theorem serviceName?_congr (aliases : Aliases) (alike : Alike source other node twin)
    (plain : ∀ argument ∈ argumentsOf node, PlainArgument argument)
    (plain' : ∀ argument ∈ argumentsOf twin, PlainArgument argument) :
    serviceName? source aliases node = serviceName? other aliases twin := by
  have function : AlikeOption source other (node.child? .function) (twin.child? .function) :=
    alike.child? (by decide)
  have first := Php.alike_head? (argumentsOf_congr alike)
  unfold serviceName?
  rw [plainName?_congr function]
  cases plainName? other (twin.child? .function) with
  | none => rfl
  | some name =>
      simp only
      split
      · rfl
      · have plainHead := fun argument (head : (argumentsOf node).head? = some argument) =>
          plain argument (List.mem_of_head? head)
        have plainHead' := fun argument (head : (argumentsOf twin).head? = some argument) =>
          plain' argument (List.mem_of_head? head)
        generalize (argumentsOf node).head? = head at first plainHead ⊢
        generalize (argumentsOf twin).head? = head' at first plainHead' ⊢
        cases first with
        | none => rfl
        | @some argument argument' same =>
            have last := alike_last same (plainHead argument rfl).last (plainHead' argument' rfl).last
            simp only [Option.bind_some]
            generalize argument.namedChildren.getLast? = value at last ⊢
            generalize argument'.namedChildren.getLast? = value' at last ⊢
            cases last with
            | none => rfl
            | some value => exact value.value?

/-- The arguments of a call are nodes in it. -/
theorem mem_argumentsOf {call argument : Node} (member : argument ∈ argumentsOf call) :
    argument ∈ call.preorder ∧ argument.kind = .argument := by
  unfold argumentsOf at member
  split at member
  · simp at member
  · rename_i row found
    obtain ⟨named, is⟩ := List.mem_filter.mp member
    have inRow : argument ∈ row.preorder :=
      Node.mem_preorder_of_child (List.mem_filter.mp named).1 argument.self_mem_preorder
    exact ⟨Node.mem_preorder_of_child (List.mem_of_find?_eq_some found) inRow, eq_of_beq is⟩

/-- The arguments of a call end in their values. -/
theorem PlainArguments.own (plain : PlainArguments node) :
    ∀ argument ∈ argumentsOf node, PlainArgument argument := by
  intro argument member
  obtain ⟨inside, is⟩ := mem_argumentsOf member
  exact plain argument inside is

/-- Arguments that end in their values do so in each node inside. -/
theorem PlainArguments.inside {root inner : Node} (plain : PlainArguments root)
    (inside : inner ∈ root.preorder) : PlainArguments inner :=
  fun argument member => plain argument (Node.mem_preorder_trans inside member)

/-- Arguments that end in their values do so in the last child. -/
theorem PlainArguments.last {inner : Node} (plain : PlainArguments node)
    (found : node.namedChildren.getLast? = some inner) : PlainArguments inner :=
  plain.inside (Node.mem_preorder_of_child
    (List.mem_filter.mp (List.mem_of_getLast? found)).1 inner.self_mem_preorder)

/-- A bracketed receiver is what stands last in the brackets. -/
theorem receiver?_parenthesized (source : List Char) (aliases : Aliases)
    (is : node.kind = .parenthesized) :
    receiver? source aliases node =
      match node.namedChildren.getLast? with
      | some inner => receiver? source aliases inner
      | none => .ok none := by
  rw [receiver?]
  simp only [is]
  split <;> rename_i found <;> simp only [found]

/-- A receiver has one name, whatever comments are around it. -/
theorem receiver?_congr (aliases : Aliases) (alike : Alike source other node twin)
    (plain : PlainReceiver node) (plain' : PlainReceiver twin)
    (arguments : PlainArguments node) (arguments' : PlainArguments twin) :
    receiver? source aliases node = receiver? other aliases twin := by
  induction plain generalizing twin with
  | @other object kind =>
      have name : AlikeOption source other (object.child? .name) (twin.child? .name) :=
        alike.child? (by decide)
      cases is : object.kind with
      | parenthesized => exact absurd is kind
      | «variable» =>
          rw [receiver?, receiver?, ← alike.kind, is]
          simp only [alike.text (by rw [is]; rfl)]
      | member =>
          rw [receiver?, receiver?, ← alike.kind, is]
          simp only [plainName?_congr name]
      | nullsafeMember =>
          rw [receiver?, receiver?, ← alike.kind, is]
          simp only [plainName?_congr name]
      | functionCall =>
          rw [receiver?, receiver?, ← alike.kind, is]
          exact serviceName?_congr aliases alike arguments.own arguments'.own
      | _ => rw [receiver?, receiver?, ← alike.kind, is]
  | @bracketed object kind last inside inductionHypothesis =>
      have kind' : twin.kind = .parenthesized := alike.kind ▸ kind
      cases plain' with
      | other different => exact absurd kind' different
      | bracketed _ last' inside' =>
          have same := alike_last alike last last'
          rw [receiver?_parenthesized source aliases kind,
            receiver?_parenthesized other aliases kind']
          generalize own : object.namedChildren.getLast? = found at same ⊢
          generalize own' : twin.namedChildren.getLast? = found' at same ⊢
          cases same with
          | none => rfl
          | @some inner inner' same =>
              exact inductionHypothesis inner own same (inside' inner' own')
                (arguments.last own) (arguments'.last own')

/-- Alike calls of a function have one label. -/
theorem functionLabel?_congr (targets : Targets) (aliases : Aliases)
    (alike : Alike source other node twin) :
    functionLabel? source targets aliases node = functionLabel? other targets aliases twin := by
  have function : AlikeOption source other (node.child? .function) (twin.child? .function) :=
    alike.child? (by decide)
  simp only [functionLabel?, plainName?_congr function]

/-- Alike calls of a static method have one label. -/
theorem staticLabel?_congr (targets : Targets) (aliases : Aliases)
    (alike : Alike source other node twin) :
    staticLabel? source targets aliases node = staticLabel? other targets aliases twin := by
  have scope : AlikeOption source other (node.child? .scope) (twin.child? .scope) :=
    alike.child? (by decide)
  have name : AlikeOption source other (node.child? .name) (twin.child? .name) :=
    alike.child? (by decide)
  simp only [staticLabel?, plainName?_congr scope, plainName?_congr name]

/-- Bracketed receivers without comments at their ends are so in each node inside. -/
theorem PlainReceivers.inside {root inner : Node} (plain : PlainReceivers root)
    (inside : inner ∈ root.preorder) : PlainReceivers inner :=
  fun call member => plain call (Node.mem_preorder_trans inside member)

/-- Alike calls of a method have one label, whatever comments are around the receiver. -/
theorem methodLabel?_congr (targets : Targets) (aliases : Aliases)
    (alike : Alike source other node twin)
    (receivers : PlainReceivers node) (receivers' : PlainReceivers twin)
    (arguments : PlainArguments node) (arguments' : PlainArguments twin) :
    methodLabel? source targets aliases node = methodLabel? other targets aliases twin := by
  have name : AlikeOption source other (node.child? .name) (twin.child? .name) :=
    alike.child? (by decide)
  have object : AlikeOption source other (node.child? .object) (twin.child? .object) :=
    alike.child? (by decide)
  have inside {node object : Node} (found : node.child? .object = some object) :
      object ∈ node.preorder :=
    Node.mem_preorder_of_child (List.mem_of_find?_eq_some found) object.self_mem_preorder
  simp only [methodLabel?, plainName?_congr name]
  generalize own : node.child? .object = found at object ⊢
  generalize own' : twin.child? .object = found' at object ⊢
  cases object with
  | none => rfl
  | @some receiver receiver' same =>
      simp only
      rw [receiver?_congr aliases same (receivers node node.self_mem_preorder receiver own)
        (receivers' twin twin.self_mem_preorder receiver' own')
        (arguments.inside (inside own)) (arguments'.inside (inside own'))]

/-- Alike calls have one label. -/
theorem label?_congr (targets : Targets) (aliases : Aliases)
    (alike : Alike source other node twin)
    (receivers : PlainReceivers node) (receivers' : PlainReceivers twin)
    (arguments : PlainArguments node) (arguments' : PlainArguments twin) :
    label? source targets aliases node = label? other targets aliases twin := by
  simp only [label?, ← alike.kind, functionLabel?_congr targets aliases alike,
    staticLabel?_congr targets aliases alike,
    methodLabel?_congr targets aliases alike receivers receivers' arguments arguments']

/-- Alike arguments have one name. -/
theorem argumentName?_congr (alike : Alike source other node twin) (plain : PlainArgument node)
    (plain' : PlainArgument twin) : argumentName? source node = argumentName? other twin := by
  have name : AlikeOption source other (node.child? .name) (twin.child? .name) :=
    alike.child? (by decide)
  have last := alike_last alike plain.last plain'.last
  have word := plain.word
  unfold argumentName?
  generalize node.child? .name = named at name word ⊢
  generalize twin.child? .name = named' at name ⊢
  generalize node.namedChildren.getLast? = ending at last ⊢
  generalize twin.namedChildren.getLast? = ending' at last ⊢
  cases name with
  | none => rfl
  | @some word word' name =>
      cases last with
      | none => rfl
      | some last =>
          simp only [Option.bind_eq_bind, Option.bind_some, last.role]
          rw [name.text (by rw [word _ rfl]; rfl)]

/-- The arguments of two calls have the same outlines, and none ends in a comment. -/
structure AlikeArguments (source other : List Char) (arguments twins : List Node) : Prop where
  outlines : arguments.map (Node.outline source) = twins.map (Node.outline other)
  plain : ∀ argument ∈ arguments, PlainArgument argument
  plain' : ∀ argument ∈ twins, PlainArgument argument

/-- Of alike arguments, those that name a parameter first are alike. -/
theorem AlikeArguments.find? {arguments twins : List Node}
    (same : AlikeArguments source other arguments twins) (parameter : Text) :
    AlikeOption source other
      (arguments.find? fun argument => argumentName? source argument == some parameter)
      (twins.find? fun argument => argumentName? other argument == some parameter) := by
  obtain ⟨outlines, plain, plain'⟩ := same
  induction arguments generalizing twins with
  | nil =>
      cases twins with
      | nil => exact .none
      | cons twin rest => simp at outlines
  | cons argument rest inductionHypothesis =>
      cases twins with
      | nil => simp at outlines
      | cons twin rest' =>
          rw [List.map_cons, List.map_cons, List.cons.injEq] at outlines
          have name := argumentName?_congr outlines.1 (plain argument List.mem_cons_self)
            (plain' twin List.mem_cons_self)
          rw [List.find?_cons, List.find?_cons, name]
          split
          · exact .some outlines.1
          · exact inductionHypothesis outlines.2
              (fun other member => plain other (List.mem_cons_of_mem _ member))
              fun other member => plain' other (List.mem_cons_of_mem _ member)

/-- Of alike arguments, those for the key are alike. -/
theorem keyArgument?_congr {arguments twins : List Node}
    (same : AlikeArguments source other arguments twins) :
    AlikeOption source other (keyArgument? source arguments) (keyArgument? other twins) := by
  have found := same.find? keyParameter
  obtain ⟨outlines, plain, plain'⟩ := same
  cases arguments with
  | nil =>
      cases twins with
      | nil => exact .none
      | cons twin rest => simp at outlines
  | cons argument rest =>
      cases twins with
      | nil => simp at outlines
      | cons twin rest' =>
          rw [List.map_cons, List.map_cons, List.cons.injEq] at outlines
          have name := argumentName?_congr outlines.1 (plain argument List.mem_cons_self)
            (plain' twin List.mem_cons_self)
          simp only [keyArgument?, name]
          split
          · exact .some outlines.1
          · exact found

/-- The argument for the key is one of the arguments. -/
theorem keyArgument?_mem {arguments : List Node} {argument : Node}
    (found : keyArgument? source arguments = some argument) : argument ∈ arguments := by
  unfold keyArgument? at found
  split at found
  · simp at found
  · split at found
    · exact Option.some.inj found ▸ List.mem_cons_self
    · exact List.mem_of_find?_eq_some found

/-- The same key is given, or none for the same reason. -/
theorem resolve_congr {arguments twins : List Node}
    (same : AlikeArguments source other arguments twins) :
    (resolve source arguments).map Resolution.outcome =
      (resolve other twins).map Resolution.outcome := by
  have found := keyArgument?_congr same
  unfold resolve
  cases own : keyArgument? source arguments with
  | none =>
      rw [own] at found
      generalize keyArgument? other twins = found' at found ⊢
      cases found
      rfl
  | some argument =>
      cases own' : keyArgument? other twins with
      | none =>
          rw [own, own'] at found
          cases found
      | some argument' =>
          rw [own, own'] at found
          cases found with
          | some alike =>
              have last := alike_last alike (same.plain _ (keyArgument?_mem own)).last
                (same.plain' _ (keyArgument?_mem own')).last
              simp only
              generalize argument.namedChildren.getLast? = value at last ⊢
              generalize argument'.namedChildren.getLast? = value' at last ⊢
              cases last with
              | none => rfl
              | @some value value' alike =>
                  simp only [alike.kind, alike.value?]
                  split
                  · rfl
                  · cases value? other value' with
                    | error e => rfl
                    | ok key => cases key <;> rfl

end

/-- The trees of two programs have the same outlines, read from either form of the sources. -/
structure SameOutline (program other : Program) : Prop where
  written : Alike program.source.written other.source.written program.root other.root
  masked : Alike program.source.masked other.source.masked program.root other.root

/-- Comments do not get in the way of receivers and arguments. -/
structure Plain (program : Program) : Prop where
  isProgram : program.root.kind = .program
  receivers : PlainReceivers program.root
  arguments : PlainArguments program.root

section

variable {program other : Program}

/-- Programs with the same outline have alike nodes in the same order, comments left out. -/
theorem SameOutline.proper (same : SameOutline program other) (plain : Plain program)
    (plain' : Plain other) :
    List.Forall₂ (fun node twin => Alike program.source.written other.source.written node twin ∧
      Alike program.source.masked other.source.masked node twin)
        program.root.proper other.root.proper := by
  have noComment {program : Program} (plain : Plain program) :
      program.root.isComment = false := by
    simp [Node.isComment, plain.isProgram]
  have written := same.written.nodes (noComment plain) (noComment plain')
  have masked := same.masked.nodes (noComment plain) (noComment plain')
  generalize program.root.proper = nodes at written masked ⊢
  generalize other.root.proper = twins at written masked ⊢
  induction nodes generalizing twins with
  | nil =>
      cases twins with
      | nil => exact .nil
      | cons twin rest => simp at written
  | cons node rest inductionHypothesis =>
      cases twins with
      | nil => simp at written
      | cons twin rest' =>
          rw [List.map_cons, List.map_cons, List.cons.injEq] at written masked
          exact .cons ⟨written.1, masked.1⟩ (inductionHypothesis rest' written.2 masked.2)

/-- Imports are declared outside of comments. -/
theorem imports_proper (program : Program) : program.imports =
    (program.root.proper.filter (·.kind == .useDeclaration)).flatMap fun node =>
      Php.importsOf (node.text program.source.written) := by
  rw [Program.imports, Node.nodes_eq_preorder, Node.proper, List.filter_filter]
  congr 1
  refine List.filter_congr fun node _ => ?_
  cases is : node.kind == .useDeclaration with
  | false => rfl
  | true => simp [Node.isComment, eq_of_beq is]

/-- Programs with the same outline have the same imports. -/
theorem imports_congr (same : SameOutline program other) (plain : Plain program)
    (plain' : Plain other) : program.imports = other.imports := by
  have proper := same.proper plain plain'
  rw [imports_proper, imports_proper]
  generalize program.root.proper = nodes at proper ⊢
  generalize other.root.proper = twins at proper ⊢
  induction proper with
  | nil => rfl
  | @cons node twin rest rest' both _ inductionHypothesis =>
      rw [List.filter_cons, List.filter_cons, ← both.1.kind]
      split
      · rename_i is
        rw [List.flatMap_cons, List.flatMap_cons, inductionHypothesis,
          both.1.text (by rw [eq_of_beq is]; rfl)]
      · exact inductionHypothesis

/-- The finding at a node, if there is one. -/
def findingAt? (program : Program) (targets : Targets) (node : Node) :
    Except EscapeError (Option Finding) :=
  (siteAt? program targets program.aliases node).map (Option.map (Site.finding program))

/-- No call is found at a comment. -/
theorem siteAt?_comment (targets : Targets) (aliases : Aliases) {node : Node}
    (comment : node.isComment = true) : siteAt? program targets aliases node = .ok none := by
  have is : node.kind = .comment := by
    simp only [Node.isComment, Bool.and_eq_true] at comment
    exact eq_of_beq comment.1.1
  simp [siteAt?, label?, is, bind, Except.bind, pure, Except.pure]

/-- The calls at nodes, told one by one. -/
theorem mapM_findingAt? (targets : Targets) (nodes : List Node) :
    (nodes.mapM (siteAt? program targets program.aliases)).map
        (fun sites => sites.reduceOption.map (Site.finding program)) =
      ((nodes.filter (!·.isComment)).mapM (findingAt? program targets)).map
        List.reduceOption := by
  induction nodes with
  | nil => rfl
  | cons node rest inductionHypothesis =>
      rw [List.mapM_cons]
      cases comment : node.isComment with
      | true =>
          rw [List.filter_cons_of_neg (by simp [comment]), siteAt?_comment targets _ comment,
            ← inductionHypothesis]
          cases rest.mapM (siteAt? program targets program.aliases) <;> rfl
      | false =>
          rw [List.filter_cons_of_pos (by simp [comment]), List.mapM_cons, findingAt?]
          cases siteAt? program targets program.aliases node with
          | error e => rfl
          | ok site =>
              generalize rest.mapM (siteAt? program targets program.aliases) = others
                at inductionHypothesis ⊢
              generalize (rest.filter (!·.isComment)).mapM (findingAt? program targets) = told
                at inductionHypothesis ⊢
              cases others with
              | error e =>
                  cases told with
                  | error e' => exact inductionHypothesis
                  | ok found => simp [Except.map] at inductionHypothesis
              | ok sites =>
                  cases told with
                  | error e => simp [Except.map] at inductionHypothesis
                  | ok found =>
                      have same := Except.ok.inj inductionHypothesis
                      cases site with
                      | none => exact congrArg Except.ok same
                      | some site =>
                          exact congrArg (fun later => Except.ok (site.finding program :: later)) same

/-- The findings of a program are those of its nodes that are no comments. -/
theorem findings_eq (program : Program) (targets : Targets) : findings program targets =
    (program.root.proper.mapM (findingAt? program targets)).map List.reduceOption := by
  rw [Node.proper, ← mapM_findingAt?, findings, sites, Node.nodes_eq_preorder]
  cases program.root.preorder.mapM (siteAt? program targets program.aliases) <;> rfl

/-- At alike nodes there is one finding. -/
theorem findingAt?_congr (same : SameOutline program other) (plain : Plain program)
    (plain' : Plain other) (targets : Targets) {node twin : Node}
    (written : Alike program.source.written other.source.written node twin)
    (masked : Alike program.source.masked other.source.masked node twin)
    (inside : node ∈ program.root.preorder) (inside' : twin ∈ other.root.preorder) :
    findingAt? program targets node = findingAt? other targets twin := by
  have aliases : program.aliases = other.aliases := by
    rw [Program.aliases, Program.aliases, imports_congr same plain plain']
  have label := label?_congr targets other.aliases written (plain.receivers.inside inside)
    (plain'.receivers.inside inside') (plain.arguments.inside inside)
    (plain'.arguments.inside inside')
  have arguments : AlikeArguments program.source.masked other.source.masked (argumentsOf node)
      (argumentsOf twin) := by
    refine ⟨argumentsOf_congr masked, fun argument member => ?_, fun argument member => ?_⟩
    · obtain ⟨within, is⟩ := mem_argumentsOf member
      exact plain.arguments argument (Node.mem_preorder_trans inside within) is
    · obtain ⟨within, is⟩ := mem_argumentsOf member
      exact plain'.arguments argument (Node.mem_preorder_trans inside' within) is
  have outcome := resolve_congr arguments
  simp only [findingAt?, siteAt?, aliases, label]
  cases label? other.source.written targets other.aliases twin with
  | error e => rfl
  | ok label =>
      cases label with
      | none => rfl
      | some label =>
          exact congrArg (fun outcome => Except.ok (some (Finding.mk label outcome))) outcome

/-- Programs of one outline have the same calls with the same keys. -/
theorem findings_congr (same : SameOutline program other) (plain : Plain program)
    (plain' : Plain other) (targets : Targets) :
    findings program targets = findings other targets := by
  have proper := same.proper plain plain'
  have inside (root : Node) : ∀ node ∈ root.proper, node ∈ root.preorder :=
    fun node member => (List.mem_filter.mp member).1
  have told : program.root.proper.mapM (findingAt? program targets) =
      other.root.proper.mapM (findingAt? other targets) := by
    have inside' := inside other.root
    have inside := inside program.root
    generalize program.root.proper = nodes at proper inside ⊢
    generalize other.root.proper = twins at proper inside' ⊢
    induction proper with
    | nil => rfl
    | @cons node twin rest rest' both _ inductionHypothesis =>
        rw [List.mapM_cons, List.mapM_cons,
          findingAt?_congr same plain plain' targets both.1 both.2 (inside node List.mem_cons_self)
            (inside' twin List.mem_cons_self),
          inductionHypothesis (fun inner member => inside inner (List.mem_cons_of_mem _ member))
            fun inner member => inside' inner (List.mem_cons_of_mem _ member)]
  rw [findings_eq, findings_eq, told]

end

end Untranslated.Call
