/-
This file proves that targets and calls agree on names. A call is found just when the last segments
of what it calls and of what is configured are the same in lower case.
-/

import Untranslated.Proofs.Call.Matching
import Untranslated.Proofs.Php.Import.Names
import Untranslated.Proofs.Php.Literal.Spelling
import Untranslated.Proofs.Text.Letters

namespace Untranslated.Call

open Json (Value)
open Php (Aliases IsName Node Program Role Word denoted lastSegment)
open Php.Literal (value?)

/-- A value that configures one function. -/
inductive OneFunction (name : Text) : Value → Prop where
  | text : OneFunction name (.string name)
  | row : OneFunction name (.array [.string name])

/-- A value that configures one pair, as a row of two texts or as one text with a separator. -/
inductive OnePair (separator : String) (owner method : Text) : Value → Prop where
  | row : OnePair separator owner method (.array [.array [.string owner, .string method]])
  | text : OnePair separator owner method
      (.array [.string (owner ++ Text.ofString separator ++ method)])

/-- A configuration has a value in a field, and it is read as these targets. -/
def Configures (field : Text) (value : Value) (targets : Targets) : Prop :=
  ∃ members, Value.lookup? members field = some value ∧ Targets.ofMembers members = .ok targets

/-- Targets are read just when each of the three fields is. -/
theorem ofMembers_eq_ok {members : List (Text × Value)} {targets : Targets} :
    Targets.ofMembers members = .ok targets ↔ ∃ functions statics methods,
      functionsOf (Value.lookup? members "functions") = .ok functions ∧
      pairsOf "::" defaultStatics (Value.lookup? members "static") = .ok statics ∧
      pairsOf "->" defaultMethods (Value.lookup? members "method") = .ok methods ∧
      Targets.ofNames functions statics methods = targets := by
  unfold Targets.ofMembers
  simp only [bind_eq_ok, exists_and_left, pure, Except.pure, Except.ok.injEq]

/-- A field of the configuration: what reads its value, and what the targets keep of it. The targets
tell the value of the field, and a value that is read needs no other field beside it. -/
structure Field (Row Kept : Type) where
  name : Text
  read : Option Value → Except TargetError Row
  kept : Targets → Kept
  keep : Row → Kept
  told : ∀ {members : List (Text × Value)} {targets : Targets},
    Targets.ofMembers members = .ok targets →
      ∃ row, read (Value.lookup? members name) = .ok row ∧ kept targets = keep row
  alone : ∀ {value : Value} {row : Row}, read (some value) = .ok row →
    ∃ targets, Configures name value targets

/-- The functions to look for. -/
def functionField : Field (List Text) (List Text) where
  name := "functions"
  read := functionsOf
  kept := Targets.functions
  keep names := Text.unique (names.map functionName)
  told := by
    intro members targets told
    obtain ⟨functions, _, _, read, -, -, rfl⟩ := ofMembers_eq_ok.mp told
    exact ⟨functions, read, rfl⟩
  alone := fun {value _} own => ⟨_, [("functions", value)], rfl,
    ofMembers_eq_ok.mpr ⟨_, _, _, own, rfl, rfl, rfl⟩⟩

/-- The static methods to look for, with their classes. -/
def staticField : Field (List (Text × Text)) (List (Text × Text)) where
  name := "static"
  read := pairsOf "::" defaultStatics
  kept := Targets.statics
  keep pairs := Text.unique (pairs.map pairName)
  told := by
    intro members targets told
    obtain ⟨_, statics, _, -, read, -, rfl⟩ := ofMembers_eq_ok.mp told
    exact ⟨statics, read, rfl⟩
  alone := fun {value _} own => ⟨_, [("static", value)], rfl,
    ofMembers_eq_ok.mpr ⟨_, _, _, rfl, own, rfl, rfl⟩⟩

/-- The methods to look for, with their receivers. -/
def methodField : Field (List (Text × Text)) (List (Text × Text)) where
  name := "method"
  read := pairsOf "->" defaultMethods
  kept := Targets.methods
  keep pairs := Text.unique (pairs.map pairName)
  told := by
    intro members targets told
    obtain ⟨_, _, methods, -, -, read, rfl⟩ := ofMembers_eq_ok.mp told
    exact ⟨methods, read, rfl⟩
  alone := fun {value _} own => ⟨_, [("method", value)], rfl,
    ofMembers_eq_ok.mpr ⟨_, _, _, rfl, rfl, own, rfl⟩⟩

/-- Some targets have a value in a field that can be read, and all such targets keep the same of
it. -/
theorem Field.configures {Row Kept : Type} (field : Field Row Kept) {value : Value} {row : Row}
    (own : field.read (some value) = .ok row) :
    (∃ targets, Configures field.name value targets) ∧
      ∀ targets, Configures field.name value targets → field.kept targets = field.keep row := by
  refine ⟨field.alone own, ?_⟩
  rintro targets ⟨members, found, told⟩
  obtain ⟨row', read, keeps⟩ := field.told told
  rw [found, own] at read
  obtain rfl := Except.ok.inj read
  exact keeps

/-- A text is split at the first separator. -/
theorem splitOnce?_append {c : CodePoint} {separator front : Text} (absent : c ∉ front)
    (back : Text) :
    Text.splitOnce? (c :: separator) (front ++ (c :: separator ++ back)) = some (front, back) := by
  induction front with
  | nil =>
      have begins : (c :: separator).isPrefixOf (c :: (separator ++ back)) = true := by
        simp
      have behind : (c :: (separator ++ back)).drop (c :: separator).length = back :=
        List.drop_left
      rw [List.nil_append, List.cons_append, Text.splitOnce?, if_pos begins, behind]
  | cons d front inductionHypothesis =>
      obtain ⟨other, absent⟩ := List.ne_and_not_mem_of_not_mem_cons absent
      have differs : (c :: separator).isPrefixOf (d :: (front ++ (c :: separator ++ back))) =
          false := by
        simp [List.isPrefixOf, other]
      rw [List.cons_append, Text.splitOnce?, differs, inductionHypothesis absent]
      rfl

section

variable {name owner method : Text} {value : Value}

theorem OneFunction.read (one : OneFunction name value) :
    functionsOf (some value) = .ok [name] := by
  cases one <;> rfl

/-- A value for one pair is read as this pair, in either form. -/
theorem OnePair.read {separator : String} {mark : CodePoint} {others : Text}
    (begins : Text.ofString separator = mark :: others) (absent : mark ∉ owner)
    (filled : owner ≠ []) (filledMethod : method ≠ []) (standard : List (Text × Text))
    (one : OnePair separator owner method value) :
    pairsOf separator standard (some value) = .ok [(owner, method)] := by
  cases one with
  | row => rfl
  | text =>
      have split : splitPair separator (owner ++ Text.ofString separator ++ method) =
          .ok (owner, method) := by
        rw [splitPair, List.append_assoc, begins, splitOnce?_append absent]
        simp [filled, filledMethod]
      simp only [pairsOf, elements, Value.elements?, bind, Except.bind, List.mapM_cons,
        List.mapM_nil, pairOf, split, pure, Except.pure]

end

section

variable {name dollars : Text}

/-- A function goes by the last segment of its name. -/
theorem functionName_lastSegment (named : IsName name) :
    functionName name = Text.lower (lastSegment name) := by
  rw [functionName, Php.shortName_lastSegment named.solid]

/-- Dollar signs stay in front of a single segment only. -/
theorem lastSegment_dollars (signs : ∀ c ∈ dollars, c = CodePoint.ofChar '$')
    (named : IsName name) : ∃ kept, (∀ c ∈ kept, c = CodePoint.ofChar '$') ∧
      lastSegment (dollars ++ name) = kept ++ lastSegment name := by
  cases named with
  | word word =>
      have plain := Php.noBackslash_word word
      have single : CodePoint.ofChar '\\' ∉ dollars ++ word.val := by
        refine fun member => (List.mem_append.mp member).elim (fun sign => ?_) plain
        exact absurd (signs _ sign) (by decide)
      exact ⟨dollars, signs, by rw [Php.lastSegment_single single, Php.lastSegment_single plain]⟩
  | rooted word =>
      have plain := Php.noBackslash_word word
      have own : lastSegment (.ofChar '\\' :: word.val) = word.val :=
        Php.lastSegment_append [] plain
      exact ⟨[], by simp, by rw [Php.lastSegment_append _ plain, own, List.nil_append]⟩
  | @within front named word =>
      have plain := Php.noBackslash_word word
      refine ⟨[], by simp, ?_⟩
      rw [← List.append_assoc, Php.lastSegment_append _ plain, Php.lastSegment_append _ plain,
        List.nil_append]

/-- A word has no dollar sign, nor has it one in lower case. -/
theorem noDollar_lower (word : Word) : ∀ c ∈ Text.lower word.val, c.is '$' = false := by
  intro c member
  by_contra sign
  rw [Bool.not_eq_false, Php.Literal.is_iff] at sign
  subst sign
  have inside := word.property.2 _ (Text.mem_lowerFrom member)
  rw [Text.isWord_mark (by decide)] at inside
  cases inside

/-- A class or a receiver goes by its last segment, without dollar signs. -/
theorem ownerName_lastSegment (signs : ∀ c ∈ dollars, c = CodePoint.ofChar '$')
    (named : IsName name) : ownerName (dollars ++ name) = Text.lower (lastSegment name) := by
  have solid : ∀ c ∈ dollars ++ name, Text.isBlank c = false := by
    refine List.forall_mem_append.mpr ⟨fun c sign => ?_, named.solid⟩
    rw [signs c sign]
    decide
  obtain ⟨kept, keptSigns, last⟩ := lastSegment_dollars signs named
  obtain ⟨word, segment⟩ := named.lastSegment_word
  have goes : ∀ c ∈ kept, c.is '$' = true := fun c member =>
    Php.Literal.is_iff.mpr (keptSigns c member)
  rw [ownerName, Php.shortName_lastSegment solid, last, segment, Text.lower_dollars keptSigns,
    List.dropWhile_append_of_pos goes, Text.dropWhile_none (noDollar_lower word)]

end

/-- A node is one of the calls that are found. -/
def IsFound (program : Program) (targets : Targets) (call : Node) : Prop :=
  ∃ site, siteAt? program targets program.aliases call = .ok (some site)

/-- A call of a function by a name. -/
structure IsFunctionCall (source : List Char) (call : Node) (function : Text) : Prop where
  is : call.kind = .functionCall
  function : HasName source call .function function

/-- A call of a method of a class by their names. -/
structure IsStaticCall (source : List Char) (call : Node) (scope method : Text) : Prop where
  is : call.kind = .staticCall
  scope : HasName source call .scope scope
  method : HasName source call .name method

/-- An object that is written with an identifier, as a variable, as a property or as a service, in
any number of brackets. -/
inductive IsObject (source : List Char) (identifier : Text) : Node → Prop where
  | variable {object : Node} (is : object.kind = .variable)
      (written : object.text source = .ofChar '$' :: identifier) : IsObject source identifier object
  | property {object : Node} (is : object.kind = .member ∨ object.kind = .nullsafeMember)
      (named : HasName source object .name identifier) : IsObject source identifier object
  | service {object argument value : Node} {function : String} (is : object.kind = .functionCall)
      (container : function = "app" ∨ function = "resolve")
      (named : HasName source object .function function)
      (first : (argumentsOf object).head? = some argument)
      (last : argument.namedChildren.getLast? = some value) (quoted : value.kind = .singleQuoted)
      (written : value.text source = .ofChar '\'' :: (identifier ++ [.ofChar '\''])) :
      IsObject source identifier object
  | bracketed {object inner : Node} (is : object.kind = .parenthesized)
      (last : object.namedChildren.getLast? = some inner)
      (inside : IsObject source identifier inner) : IsObject source identifier object

/-- A call of a method of an object that is written with an identifier. -/
structure IsMethodCall (source : List Char) (call : Node) (identifier method : Text) : Prop where
  is : call.kind = .memberCall ∨ call.kind = .nullsafeCall
  object : ∃ object, call.child? .object = some object ∧ IsObject source identifier object
  method : HasName source call .name method

/-- No function import of a file binds a word. -/
def Unbound (program : Program) (word : Text) : Prop :=
  ∀ imported ∈ program.imports, imported.kind = .function → Text.lower imported.bound ≠ word

section

variable {program : Program} {targets : Targets} {call : Node}

/-- A call is found just when it is a call of a target. -/
theorem isFound_iff : IsFound program targets call ↔
    ∃ label, Calls program.source.written targets program.aliases call label := by
  simp only [IsFound, siteAt?_eq_some]
  exact ⟨fun ⟨_, label, calls, _⟩ => ⟨label, calls⟩, fun ⟨label, calls⟩ => ⟨_, label, calls, rfl⟩⟩

/-- A child is written in one way only. -/
theorem HasName.unique {source : List Char} {role : Role} {written other : Text}
    (first : HasName source call role written) (second : HasName source call role other) :
    written = other :=
  Option.some.inj ((plainName?_eq_some.mpr first).symm.trans (plainName?_eq_some.mpr second))

/-- A function is found just when its resolved name is one of the targets. -/
theorem IsFunctionCall.isFound {function : Text}
    (calls : IsFunctionCall program.source.written call function) :
    IsFound program targets call ↔
      Text.lower (program.aliases.functions.resolve function) ∈ targets.functions := by
  rw [isFound_iff]
  constructor
  · rintro ⟨label, found⟩
    cases found with
    | function is named configured =>
        rw [calls.function.unique named]
        exact configured
    | static is => cases calls.is.symm.trans is
    | method is =>
        rcases is with is | is <;> cases calls.is.symm.trans is
  · exact fun configured => ⟨_, .function calls.is calls.function configured⟩

/-- A static call is found just when its class and its method are one of the targets. -/
theorem IsStaticCall.isFound {scope method : Text}
    (calls : IsStaticCall program.source.written call scope method) :
    IsFound program targets call ↔
      (Text.lower (program.aliases.classes.resolve scope), Text.lower method) ∈
        targets.statics := by
  rw [isFound_iff]
  constructor
  · rintro ⟨label, found⟩
    cases found with
    | function is => cases calls.is.symm.trans is
    | static is owner named configured =>
        rw [calls.scope.unique owner, calls.method.unique named]
        exact configured
    | method is =>
        rcases is with is | is <;> cases calls.is.symm.trans is
  · exact fun configured => ⟨_, .static calls.is calls.scope calls.method configured⟩

/-- A word that no import binds stands for itself. -/
theorem Unbound.resolve {word : Text} (unbound : Unbound program word) (named : IsName word)
    (single : CodePoint.ofChar '\\' ∉ word) (small : Text.lower word = word) :
    program.aliases.functions.resolve word = word := by
  have noImport : program.imports.reverse.find? (fun imported =>
      imported.kind = .function ∧ Text.lower imported.bound = Text.lower word) = none := by
    refine List.find?_eq_none.mpr fun imported member binds => ?_
    obtain ⟨is, bound⟩ := of_decide_eq_true binds
    exact unbound imported (List.mem_reverse.mp member) is (bound.trans small)
  rw [Php.functions_denoted program named, denoted, if_neg single, noImport]
  exact Php.lastSegment_single single

/-- A text without backslashes is its own value. -/
theorem unescapeSingle_word {t : Text} (plain : ∀ c ∈ t, c.is '\\' = false) :
    Php.Literal.unescapeSingle t = t := by
  induction t with
  | nil => rfl
  | cons c t inductionHypothesis =>
      obtain ⟨first, others⟩ := List.forall_mem_cons.mp plain
      rw [Php.Literal.unescapeSingle_plain first, inductionHypothesis others]

/-- A word in single quotes has itself as its value. -/
theorem value?_quoted {source : List Char} {node : Node} (is : node.kind = .singleQuoted)
    (word : Word) (written : node.text source = .ofChar '\'' :: (word.val ++ [.ofChar '\''])) :
    value? source node = .ok (some word.val) := by
  have inside : Php.Literal.betweenQuotes (.ofChar '\'' :: (word.val ++ [.ofChar '\''])) =
      word.val := by
    change (word.val ++ [CodePoint.ofChar '\'']).dropLast = word.val
    exact List.dropLast_concat
  have plain : ∀ c ∈ word.val, c.is '\\' = false := fun c member =>
    Php.Literal.is_other (word.property.2 c member) (Text.isWord_mark (by decide))
  simp only [value?, is, written, inside, unescapeSingle_word plain]

/-- An object goes by its identifier where the containers keep their names. -/
theorem IsObject.receives {identifier : Word} {object : Node}
    (app : Unbound program "app") (resolve : Unbound program "resolve")
    (written : IsObject program.source.written identifier.val object) :
    IsReceiver program.source.written program.aliases object identifier.val := by
  have plain : ∀ c ∈ identifier.val, c.is '$' = false := fun c member =>
    Php.Literal.is_other (identifier.property.2 c member) (Text.isWord_mark (by decide))
  induction written with
  | @«variable» object is text =>
      have name : (object.text program.source.written).dropWhile (·.is '$') = identifier.val := by
        rw [text, List.dropWhile_cons, if_pos (by decide)]
        exact Text.dropWhile_none plain
      rw [← name]
      exact .variable is
  | property is named => exact .property is named
  | @service object argument value function is container named first last quoted text =>
      have kept : program.aliases.functions.resolve function = function := by
        rcases container with rfl | rfl
        · exact app.resolve (.word ⟨"app", by decide +kernel⟩) (by decide) (by decide +kernel)
        · exact resolve.resolve (.word ⟨"resolve", by decide +kernel⟩) (by decide)
            (by decide +kernel)
      have asked : isContainer (program.aliases.functions.resolve function) = true := by
        rw [kept]
        rcases container with rfl | rfl <;> decide +kernel
      exact .service is named asked first last (value?_quoted quoted identifier text)
  | bracketed is last inside inductionHypothesis => exact .bracketed is last inductionHypothesis

/-- A method call is found just when its identifier and its method are one of the targets. -/
theorem IsMethodCall.isFound {identifier : Word} {method : Text}
    (app : Unbound program "app") (resolve : Unbound program "resolve")
    (calls : IsMethodCall program.source.written call identifier.val method) :
    IsFound program targets call ↔
      (Text.lower identifier.val, Text.lower method) ∈ targets.methods := by
  obtain ⟨object, found, written⟩ := calls.object
  have receives := written.receives app resolve
  rw [isFound_iff]
  constructor
  · rintro ⟨label, found'⟩
    cases found' with
    | function is => rcases calls.is with own | own <;> cases own.symm.trans is
    | static is => rcases calls.is with own | own <;> cases own.symm.trans is
    | method is object' receives' named configured =>
        obtain rfl := Option.some.inj (found.symm.trans object')
        have same := (receiver?_eq_some.mpr receives).symm.trans (receiver?_eq_some.mpr receives')
        rw [Option.some.inj (Except.ok.inj same), calls.method.unique named]
        exact configured
  · exact fun configured => ⟨_, .method calls.is found receives calls.method configured⟩

end

/-- Targets and calls agree on names: the only configured function, pair of a class and a method, or
pair of a receiver and a method is found just where the last segments of the names are the same in
lower case. -/
theorem isFound_names (program : Program) {n m : Text} (configured : IsName n) (written : IsName m)
    (f : Text) (g r : Word) {dollars : Text} (signs : ∀ c ∈ dollars, c = CodePoint.ofChar '$') :
    (∀ value, OneFunction n value →
      (∃ targets, Configures "functions" value targets) ∧
      ∀ targets, Configures "functions" value targets →
        ∀ call, IsFunctionCall program.source.written call m →
          (IsFound program targets call ↔
            Text.lower (lastSegment (denoted .function program.imports m)) =
              Text.lower (lastSegment n))) ∧
    (∀ value, OnePair "::" n g.val value →
      (∃ targets, Configures "static" value targets) ∧
      ∀ targets, Configures "static" value targets →
        ∀ call, IsStaticCall program.source.written call m f →
          (IsFound program targets call ↔
            Text.lower (lastSegment (denoted .classLike program.imports m)) =
              Text.lower (lastSegment n) ∧ Text.lower f = Text.lower g.val)) ∧
    (∀ value, OnePair "->" (dollars ++ n) g.val value →
      (∃ targets, Configures "method" value targets) ∧
      ∀ targets, Configures "method" value targets →
        Unbound program "app" → Unbound program "resolve" →
        ∀ call, IsMethodCall program.source.written call r.val f →
          (IsFound program targets call ↔
            Text.lower r.val = Text.lower (lastSegment n) ∧ Text.lower f = Text.lower g.val)) := by
  have noSigns : ∀ c ∈ ([] : Text), c = CodePoint.ofChar '$' := by simp
  have owner : ownerName n = Text.lower (lastSegment n) := ownerName_lastSegment noSigns configured
  have noDash : CodePoint.ofChar '-' ∉ dollars ++ n := by
    refine fun member => (List.mem_append.mp member).elim (fun sign => ?_)
      (configured.noMark (by decide))
    exact absurd (signs _ sign) (by decide)
  refine ⟨fun value one => ?_, fun value one => ?_, fun value one => ?_⟩
  · have own : functionField.read (some value) = .ok [n] := one.read
    obtain ⟨reads, keeps⟩ := functionField.configures own
    have only : ∀ targets, Configures "functions" value targets →
        targets.functions = [functionName n] := keeps
    refine ⟨reads, fun targets configures call calls => ?_⟩
    rw [calls.isFound, only targets configures, List.mem_singleton,
      Php.functions_denoted program written, functionName_lastSegment configured]
  · have own : staticField.read (some value) = .ok [(n, g.val)] :=
      one.read rfl (configured.noMark (by decide)) configured.filled g.property.1 defaultStatics
    obtain ⟨reads, keeps⟩ := staticField.configures own
    have only : ∀ targets, Configures "static" value targets →
        targets.statics = [pairName (n, g.val)] := keeps
    refine ⟨reads, fun targets configures call calls => ?_⟩
    rw [calls.isFound, only targets configures, List.mem_singleton, pairName, Prod.mk.injEq,
      Php.classes_denoted program written, owner]
  · have filled : dollars ++ n ≠ [] := List.append_ne_nil_of_right_ne_nil dollars configured.filled
    have own : methodField.read (some value) = .ok [(dollars ++ n, g.val)] :=
      one.read rfl noDash filled g.property.1 defaultMethods
    obtain ⟨reads, keeps⟩ := methodField.configures own
    have only : ∀ targets, Configures "method" value targets →
        targets.methods = [pairName (dollars ++ n, g.val)] := keeps
    refine ⟨reads, fun targets configures app resolve call calls => ?_⟩
    rw [calls.isFound app resolve, only targets configures, List.mem_singleton, pairName,
      Prod.mk.injEq, ownerName_lastSegment signs configured]

/-- A function, a class and a service that go by one name, written in other letters than in their
configuration. -/
def namedCalls : List Char :=
  "<?php use function A\\trans as t, B\\t as u; use B\\Trans as t; T('k'); T::Get('k');
    (app('Trans'))->Get('k');".toList

/-- What the calls of a file are made of: their names, the kinds in a receiver, the text of its
service, and the imports of the file. -/
structure Parts where
  names : List (Option Text)
  receiver : List Php.Kind
  service : Text
  imports : List Php.Import
deriving DecidableEq

/-- The parts of the first calls of each shape. -/
def partsOf (program : Program) : Option Parts := do
  let source := program.source.written
  let function ← program.root.nodes.find? (·.kind == .functionCall)
  let static ← program.root.nodes.find? (·.kind == .staticCall)
  let method ← program.root.nodes.find? (·.kind == .memberCall)
  let object ← method.child? .object
  let service ← object.namedChildren.getLast?
  let argument ← (argumentsOf service).head?
  let value ← argument.namedChildren.getLast?
  return {
    names := [plainName? source (function.child? .function),
      plainName? source (static.child? .scope), plainName? source (static.child? .name),
      plainName? source (method.child? .name), plainName? source (service.child? .function)]
    receiver := [object.kind, service.kind, value.kind]
    service := value.text source
    imports := program.imports }

/-- The parts of the calls of the file. -/
def namedParts : Parts where
  names := [some (Text.ofString "T"), some (Text.ofString "T"), some (Text.ofString "Get"),
    some (Text.ofString "Get"), some (Text.ofString "app")]
  receiver := [.parenthesized, .functionCall, .singleQuoted]
  service := "'Trans'"
  imports := [⟨.function, "A\\trans", "t"⟩, ⟨.function, "B\\t", "u"⟩,
    ⟨.classLike, "B\\Trans", "t"⟩]

/-- The calls of the file are of the three shapes. -/
theorem partsOf_calls {program : Program} (told : partsOf program = some namedParts) :
    program.imports = namedParts.imports ∧
      (∃ call ∈ program.root.nodes, IsFunctionCall program.source.written call "T") ∧
      (∃ call ∈ program.root.nodes, IsStaticCall program.source.written call "T" "Get") ∧
      ∃ call ∈ program.root.nodes, IsMethodCall program.source.written call "Trans" "Get" := by
  have is {kind : Php.Kind} {call : Node}
      (found : program.root.nodes.find? (·.kind == kind) = some call) :
      call ∈ program.root.nodes ∧ call.kind = kind := by
    refine ⟨List.mem_of_find?_eq_some found, ?_⟩
    have own := List.find?_some found
    exact eq_of_beq own
  simp only [partsOf, namedParts, Option.bind_eq_bind, Option.bind_eq_some_iff, Option.pure_def,
    Option.some.injEq, Parts.mk.injEq, List.cons.injEq, plainName?_eq_some] at told
  obtain ⟨function, function', static, static', method, method', object, object', service, last,
    argument, first, value, last', ⟨called, scope, named, named', asked, -⟩,
    ⟨brackets, asking, quoted, -⟩, text, imports⟩ := told
  exact ⟨imports, ⟨function, (is function').1, (is function').2, called⟩,
    ⟨static, (is static').1, (is static').2, scope, named⟩,
    ⟨method, (is method').1, .inl (is method').2, ⟨object, object', .bracketed brackets last
      (.service asking (.inl rfl) asked first last' quoted text)⟩, named'⟩⟩

/-- Each of the three calls is found by a name in other letters. -/
theorem isFound_names_everyShape : ∃ program functions statics methods,
    Php.parse namedCalls none = .ok program ∧
      Configures "functions" (.string "\\x\\TRANS") functions ∧
      Configures "static" (.array [.string "\\x\\TRANS::get"]) statics ∧
      Configures "method" (.array [.array [.string "$\\x\\TRANS", .string "get"]]) methods ∧
      (∃ call ∈ program.root.nodes, IsFunctionCall program.source.written call "T" ∧
        IsFound program functions call) ∧
      (∃ call ∈ program.root.nodes, IsStaticCall program.source.written call "T" "Get" ∧
        IsFound program statics call) ∧
      ∃ call ∈ program.root.nodes, IsMethodCall program.source.written call "Trans" "Get" ∧
        IsFound program methods call := by
  have read : (Php.parse namedCalls none).toOption.map partsOf = some (some namedParts) := by
    decide +kernel
  obtain ⟨program, valid, told⟩ := ok_of_toOption read
  obtain ⟨imports, ⟨function, member, called⟩, ⟨static, member', called'⟩,
    method, member'', called''⟩ := partsOf_calls told
  have configured : IsName "\\x\\TRANS" :=
    .within (.rooted ⟨"x", by decide +kernel⟩) ⟨"TRANS", by decide +kernel⟩
  have written : IsName "T" := .word ⟨"T", by decide +kernel⟩
  have signs : ∀ c ∈ Text.ofString "$", c = CodePoint.ofChar '$' := by decide
  have app : Unbound program "app" := by
    rw [Unbound, imports]
    decide +kernel
  have resolve : Unbound program "resolve" := by
    rw [Unbound, imports]
    decide +kernel
  obtain ⟨functionsAgree, staticsAgree, methodsAgree⟩ :=
    isFound_names program configured written "Get" ⟨"get", by decide +kernel⟩
      ⟨"Trans", by decide +kernel⟩ signs
  rw [imports] at functionsAgree staticsAgree
  obtain ⟨⟨functions, reads⟩, agree⟩ := functionsAgree _ .text
  obtain ⟨⟨statics, reads'⟩, agree'⟩ := staticsAgree _ .text
  obtain ⟨⟨methods, reads''⟩, agree''⟩ := methodsAgree _ .row
  exact ⟨program, functions, statics, methods, valid, reads, reads', reads'',
    ⟨function, member, called, (agree _ reads _ called).mpr (by decide +kernel)⟩,
    ⟨static, member', called', (agree' _ reads' _ called').mpr (by decide +kernel)⟩,
    ⟨method, member'', called'',
      (agree'' _ reads'' app resolve _ called'').mpr (by decide +kernel)⟩⟩

end Untranslated.Call
