/-
This file gives the patterns of expressions.
An operand grows by calls, members and offsets first, and by operators then.
-/

import Untranslated.Php.Grammar.Pattern

namespace Untranslated.Php.Grammar

/-- The rules that refer to one another. An expression has a lowest operator level. -/
inductive Rule where
  | program
  | statement
  | block
  | classBody
  | member
  | trait
  | hooks
  | expression (level : Nat)
  | operand
  | primary
  | atom
  | variable
  | classReference
  | arguments
  | argument
  | arrayElement
  | destructuring
  | target
  | parameters
  | type
  | typeAtom
  | attributes
deriving DecidableEq

def expression (level : Nat) : Pattern Rule := .rule (.expression level)

def anyExpression : Pattern Rule := expression 0

/-- A backslash with a name after it continues a qualified name. -/
def continuesName (ahead : Ahead) : Bool :=
  atMark "\\" ahead && atWord (ahead.drop 1)

def nameTail : Pattern Rule := .many continuesName (mark "\\" ++ name)

/-- A name, a qualified name, or a name relative to the current namespace. -/
def anyName : Pattern Rule :=
  .look fun ahead =>
    if atMark "\\" ahead then .node .qualifiedName (mark "\\" ++ name ++ nameTail)
    else if atKeyword "namespace" ahead && atMark "\\" (ahead.drop 1) then
      .node .relativeName (keyword "namespace" ++ mark "\\" ++ name ++ nameTail)
    else if continuesName (ahead.drop 1) then .node .qualifiedName (name ++ nameTail)
    else name

def names : Pattern Rule := separated anyName

def simpleVariable : Pattern Rule := .rule .variable

/-- A dollar sign with a name, with another variable, or with an expression in braces. -/
def variablePattern : Pattern Rule :=
  .look fun ahead =>
    if atMark "$" (ahead.drop 1) then .node .dynamicVariable (mark "$" ++ simpleVariable)
    else if atMark "\x7b" (ahead.drop 1) then
      .node .dynamicVariable (mark "$" ++ mark "\x7b" ++ anyExpression ++ mark "\x7d")
    else .node .variable (mark "$" ++ name)

/-- These can be assigned to. -/
def isVariable (kind : Kind) : Bool :=
  [.variable, .dynamicVariable, .member, .nullsafeMember, .staticMember, .subscript,
    .functionCall, .memberCall, .nullsafeCall, .staticCall, .cast].contains kind

def isText (kind : Kind) : Bool :=
  [.singleQuoted, .doubleQuoted, .heredoc, .nowdoc, .template].contains kind

def isName (kind : Kind) : Bool :=
  [.name, .qualifiedName, .relativeName].contains kind

/-- These can have members and offsets. -/
def hasMembers (kind : Kind) : Bool :=
  isName kind || isText kind || (isVariable kind && kind != .cast) ||
    [.classConstant, .parenthesized, .array, .construction].contains kind

/-- These can stand before two colons. -/
def isScope (kind : Kind) : Bool := hasMembers kind || kind == .relativeScope

/-- These can be called. -/
def isCallable (kind : Kind) : Bool :=
  isName kind || isText kind || (isVariable kind && kind != .cast) ||
    [.classConstant, .parenthesized, .array].contains kind

/-- A call of a member takes over the parts of the member. -/
def callOf (called : Tree) (children : List Child) : Tree :=
  let absorb (kind : Kind) : Tree := .branch kind (called.children ++ children)
  match called.kind with
  | .member => absorb .memberCall
  | .nullsafeMember => absorb .nullsafeCall
  | .staticMember => absorb .staticCall
  | .classConstant => absorb .staticCall
  | _ => .branch .functionCall ((.function, called) :: children)

def partOf (kind : Kind) (role : Role) (tree : Tree) (children : List Child) : Tree :=
  .branch kind ((role, tree) :: children)

/-- The name of a member is a word, a variable or an expression in braces. -/
def memberName : Pattern Rule :=
  .look fun ahead =>
    if atMark "\x7b" ahead then
      mark "\x7b" ++ .part .name anyExpression ++ mark "\x7d"
    else if atMark "$" ahead then .part .name simpleVariable
    else .part .name name

def offset : Pattern Rule :=
  mark "[" ++ optional (fun ahead => !atMark "]" ahead) anyExpression ++ mark "]"

/-- A static member is a variable, and any other name after two colons is a constant. -/
def scopedKind (ahead : Ahead) : Kind :=
  if atMark "$" (ahead.drop 1) then .staticMember else .classConstant

def continuePrimary (tree : Tree) (ahead : Ahead) :
    Option (Pattern Rule × (Tree → List Child → Tree)) :=
  if afterBreak ahead then none
  else if atMark "(" ahead && isCallable tree.kind then
    some (.part .arguments (.rule .arguments), callOf)
  else if atMark "->" ahead && hasMembers tree.kind then
    some (mark "->" ++ memberName, partOf .member .object)
  else if atMark "?->" ahead && hasMembers tree.kind then
    some (mark "?->" ++ memberName, partOf .nullsafeMember .object)
  else if atMark "::" ahead && isScope tree.kind then
    some (mark "::" ++ memberName, partOf (scopedKind ahead) .scope)
  else if atMark "[" ahead && hasMembers tree.kind then
    some (offset, partOf .subscript .none)
  else none

/-- A class reference after `new` has members and offsets, but no calls. -/
def continueReference (tree : Tree) (ahead : Ahead) :
    Option (Pattern Rule × (Tree → List Child → Tree)) :=
  let isPath := [.variable, .dynamicVariable, .member, .nullsafeMember, .staticMember,
    .subscript].contains tree.kind
  if afterBreak ahead || atMark "(" ahead then none
  else if isPath || (isName tree.kind && atMark "::" ahead && atMark "$" (ahead.drop 1)) then
    continuePrimary tree ahead
  else none

/-- The level of an operator, and the lowest level of its right operand. -/
structure Level where
  level : Nat
  right : Nat

def binaryMarks : List (List String × Level) :=
  [(["??"], ⟨6, 6⟩), (["||"], ⟨7, 8⟩), (["&&"], ⟨8, 9⟩), (["|"], ⟨9, 10⟩), (["^"], ⟨10, 11⟩),
    (["&"], ⟨11, 12⟩), (["==", "!=", "<>", "===", "!=="], ⟨12, 13⟩),
    (["<", ">", "<=", ">=", "<=>"], ⟨13, 14⟩), (["|>"], ⟨14, 15⟩), (["."], ⟨15, 16⟩),
    (["<<", ">>"], ⟨16, 17⟩), (["+", "-"], ⟨17, 18⟩), (["*", "/", "%"], ⟨18, 19⟩),
    (["**"], ⟨19, 19⟩)]

def binaryWords : List (List String × Level) :=
  [(["or"], ⟨1, 2⟩), (["xor"], ⟨2, 3⟩), (["and"], ⟨3, 4⟩)]

def assignmentLevel : Nat := 4

def conditionalLevel : Nat := 5

def unaryLevel : Nat := 20

def instanceLevel : Nat := 21

def tightLevel : Nat := 22

def binaryLevel? (l : Lexeme) : Option Level :=
  let table :=
    match l.shape with
    | .mark => binaryMarks
    | .word => binaryWords
    | _ => []
  (table.find? fun (spellings, _) => spellings.contains l.spelling).map (·.2)

def assignmentMarks : List String :=
  ["=", "**=", "*=", "/=", "%=", "+=", "-=", ".=", "<<=", ">>=", "&=", "^=", "|=", "??="]

def operator : Pattern Rule := .part .operator (.token .token (fun _ => true) "")

def combineLeft (kind : Kind) (tree : Tree) (children : List Child) : Tree :=
  .branch kind ((.left, tree) :: children)

/-- An assignment reaches as far as its own level, whatever stands before the variable. -/
def assignment : Pattern Rule :=
  anyMark assignmentMarks ++ optional (atMark "&") (mark "&") ++ expression assignmentLevel

/-- The part between the question mark and the colon may be missing. -/
def conditional : Pattern Rule :=
  mark "?" ++ optional (fun ahead => !atMark ":" ahead) anyExpression ++ mark ":" ++
    expression (conditionalLevel + 1)

def continueExpression (level : Nat) (tree : Tree) (ahead : Ahead) :
    Option (Pattern Rule × (Tree → List Child → Tree)) :=
  if afterBreak ahead then none
  else if atOneOf assignmentMarks ahead && isVariable tree.kind then
    some (assignment, partOf .expression .none)
  else if atMark "=" ahead && tree.kind == .destructuring then
    some (assignment, partOf .expression .none)
  else if atOneOf ["++", "--"] ahead && isVariable tree.kind then
    some (anyMark ["++", "--"], partOf .expression .none)
  else if tree.kind == .destructuring then some (.fail "=", partOf .expression .none)
  else if atMark "?" ahead && level ≤ conditionalLevel then
    some (conditional, partOf .expression .none)
  else if atKeyword "instanceof" ahead && level ≤ instanceLevel then
    some (operator ++ .rule .classReference, combineLeft .binary)
  else
    match ahead.head?.bind binaryLevel? with
    | none => none
    | some found =>
      if level ≤ found.level then
        some (operator ++ .part .right (expression found.right), combineLeft .binary)
      else none

def castTypes : List String :=
  ["array", "binary", "bool", "boolean", "double", "float", "int", "integer", "null", "object",
    "real", "string", "unset", "void"]

/-- The name of a type alone in round brackets is a cast. -/
def atCast (ahead : Ahead) : Bool :=
  atMark "(" ahead && atKeywords castTypes (ahead.drop 1) && atMark ")" (ahead.drop 2)

/-- A keyword with one expression after it, that reaches as far as it can. -/
def wordOperator (spelling : String) : Pattern Rule :=
  .node .expression (keyword spelling ++ anyExpression)

def startsExpression (ahead : Ahead) : Bool :=
  !afterBreak ahead && !atEnding ahead && !atOneOf [";", ",", ")", "]", "\x7d", "=>", ":"] ahead &&
    !headIs (·.shape == .broken) ahead

/-- A generator's word may stand alone, with a value, with a key and a value, or before a whole
generator. -/
def yielding : Pattern Rule :=
  .node .expression (keyword "yield" ++
    either (atKeyword "from") (keyword "from" ++ anyExpression)
      (optional startsExpression
        (anyExpression ++ optional (atMark "=>") (mark "=>" ++ anyExpression))))

def parenthesized : Pattern Rule :=
  .node .parenthesized (mark "(" ++ anyExpression ++ mark ")")

/-- A comma that separates two conditions of an arm. -/
def betweenConditions (ahead : Ahead) : Bool :=
  atMark "," ahead && !atMark "=>" (ahead.drop 1)

def matchArm : Pattern Rule :=
  .node .clause
    (either (atKeyword "default") (keyword "default")
      (anyExpression ++ .many betweenConditions (mark "," ++ anyExpression) ++
        optional (atMark ",") (mark ",")) ++
      mark "=>" ++ anyExpression)

def matching : Pattern Rule :=
  .node .expression (keyword "match" ++ parenthesized ++
    .node .clause (mark "\x7b" ++
      optional (fun ahead => !atMark "\x7d" ahead) (listed "\x7d" matchArm) ++ mark "\x7d"))

/-- The variables that a closure takes over. -/
def captured : Pattern Rule :=
  .node .clause (keyword "use" ++ mark "(" ++
    optional (fun ahead => !atMark ")" ahead)
      (listed ")" (optional (atMark "&") (mark "&") ++ simpleVariable)) ++ mark ")")

def returnType : Pattern Rule := optional (atMark ":") (mark ":" ++ .rule .type)

def reference : Pattern Rule := optional (atMark "&") (mark "&")

def closure : Pattern Rule :=
  keyword "function" ++ reference ++ .rule .parameters ++ optional (atKeyword "use") captured ++
    returnType ++ .rule .block

def arrowFunction : Pattern Rule :=
  keyword "fn" ++ reference ++ .rule .parameters ++ returnType ++ mark "=>" ++ anyExpression

/-- A function without a name, with attributes and perhaps static. -/
def function : Pattern Rule :=
  .node .expression (optional (atMark "#[") (.rule .attributes) ++
    optional (atKeyword "static") (keyword "static") ++
    either (atKeyword "fn") arrowFunction closure)

def atClass (ahead : Ahead) : Bool :=
  atMark "#[" ahead || atKeyword "class" ahead ||
    (atKeywords ["readonly", "final", "abstract"] ahead &&
      atKeywords ["class", "readonly", "final", "abstract"] (ahead.drop 1))

def bases : Pattern Rule :=
  optional (atKeyword "extends") (.node .clause (keyword "extends" ++ names))

def interfaces : Pattern Rule :=
  optional (atKeyword "implements") (.node .clause (keyword "implements" ++ names))

def heritage : Pattern Rule := bases ++ interfaces

def anonymousClass : Pattern Rule :=
  optional (atMark "#[") (.rule .attributes) ++
    .many (atKeywords ["readonly", "final", "abstract"])
      (anyKeyword ["readonly", "final", "abstract"]) ++
    keyword "class" ++ optional (atMark "(") (.part .arguments (.rule .arguments)) ++
    heritage ++ .rule .classBody

/-- Only a construction with arguments or a class body can have members. -/
def constructionOf (tree : Tree) (ahead : Ahead) :
    Option (Pattern Rule × (Tree → List Child → Tree)) :=
  if tree.kind == .bareConstruction && atMark "(" ahead && !afterBreak ahead then
    some (.part .arguments (.rule .arguments),
      fun tree children => .branch .construction (tree.children ++ children))
  else none

def construction : Pattern Rule :=
  either (fun ahead => atClass (ahead.drop 1))
    (.node .construction (keyword "new" ++ anonymousClass))
    (.grow (.node .bareConstruction (keyword "new" ++ .rule .classReference)) constructionOf)

/-- A list with brackets that an assignment takes apart. -/
def atDestructuring (ahead : Ahead) : Bool :=
  atMark "[" ahead && atMark "=" (afterGroup ahead)

/-- An array in brackets may hold a single comma alone. -/
def arrayItems (closing : String) : Pattern Rule :=
  .look fun ahead =>
    if atMark closing ahead then .nothing
    else if atMark "," ahead then mark ","
    else listed closing (.rule .arrayElement)

def arrayLiteral : Pattern Rule :=
  either (atMark "[")
    (.node .array (mark "[" ++ arrayItems "]" ++ mark "]"))
    (.node .array (keyword "array" ++ mark "(" ++ arrayItems ")" ++ mark ")"))

/-- A variable in a quoted text has at most one offset or one property. -/
def templateVariable : Pattern Rule :=
  .node .variable (mark "$" ++ name) ++
    .look fun ahead =>
      if atMark "[" ahead then
        mark "[" ++ optional (atMark "-") (mark "-") ++
          (.look fun ahead =>
            if atMark "$" ahead then .node .variable (mark "$" ++ name)
            else if atWord ahead then name
            else shaped .integer .integer) ++ mark "]"
      else if atMark "->" ahead then mark "->" ++ name
      else .nothing

def templatePart : Pattern Rule :=
  .look fun ahead =>
    if headIs (·.shape == .templateText) ahead then shaped .expression .templateText
    else if atMark "\x7b" ahead then mark "\x7b" ++ anyExpression ++ mark "\x7d"
    else if atMark "$\x7b" ahead then mark "$\x7b" ++ anyExpression ++ mark "\x7d"
    else .node .expression templateVariable

def template : Pattern Rule :=
  .node .template (shaped .token .templateOpening ++
    .many (fun ahead =>
      !headIs (fun l => l.shape == .templateClosing || l.shape == .broken) ahead &&
        !atEnding ahead) templatePart ++
    shaped .token .templateClosing)

/-- What an expression without operators begins with. -/
def operandPattern : Pattern Rule :=
  .look fun ahead =>
    if atOneOf ["+", "-", "~", "!"] ahead then
      .node .expression (anyMark ["+", "-", "~", "!"] ++ expression unaryLevel)
    else if atMark "@" ahead then .node .expression (mark "@" ++ expression tightLevel)
    else if atOneOf ["++", "--"] ahead then
      .node .expression (anyMark ["++", "--"] ++ .rule .target)
    else if atCast ahead then
      .node .cast (mark "(" ++ anyKeyword castTypes ++ mark ")" ++ .rule .operand)
    else if atKeyword "clone" ahead then
      .node .expression (keyword "clone" ++ .rule .primary)
    else if atKeyword "print" ahead then wordOperator "print"
    else if atKeyword "throw" ahead then wordOperator "throw"
    else if atKeyword "include" ahead then wordOperator "include"
    else if atKeyword "include_once" ahead then wordOperator "include_once"
    else if atKeyword "require" ahead then wordOperator "require"
    else if atKeyword "require_once" ahead then wordOperator "require_once"
    else if atKeyword "yield" ahead then yielding
    else .rule .primary

/-- What a primary expression begins with. -/
def atomPattern : Pattern Rule :=
  .look fun ahead =>
    match ahead.head?.map Lexeme.shape with
    | some .integer => shaped .integer .integer
    | some .real => shaped .real .real
    | some .singleQuoted => shaped .singleQuoted .singleQuoted
    | some .doubleQuoted => shaped .doubleQuoted .doubleQuoted
    | some .heredoc => shaped .heredoc .heredoc
    | some .nowdoc => shaped .nowdoc .nowdoc
    | some .shellQuoted => shaped .expression .shellQuoted
    | some .templateOpening => template
    | some .mark =>
      if atMark "(" ahead then parenthesized
      else if atDestructuring ahead then .rule .destructuring
      else if atMark "[" ahead then arrayLiteral
      else if atMark "$" ahead then simpleVariable
      else if atMark "\\" ahead then anyName
      else if atMark "#[" ahead then function
      else .fail "name"
    | some .word =>
      if atKeyword "new" ahead then construction
      else if atKeyword "match" ahead then matching
      else if atKeywords ["function", "fn"] ahead then function
      else if atKeyword "static" ahead && atKeywords ["function", "fn"] (ahead.drop 1) then function
      else if atKeyword "array" ahead && atMark "(" (ahead.drop 1) then arrayLiteral
      else if atKeyword "list" ahead && atMark "(" (ahead.drop 1) then .rule .destructuring
      else if atKeywords ["self", "parent", "static"] ahead && atMark "::" (ahead.drop 1) then
        .node .relativeScope (anyKeyword ["self", "parent", "static"])
      else anyName
    | _ => .fail "name"

def classReferencePattern : Pattern Rule :=
  .grow
    (.look fun ahead =>
      if atMark "(" ahead then parenthesized
      else if atMark "$" ahead then simpleVariable
      else if atKeywords ["self", "parent", "static"] ahead then
        .node .relativeScope (anyKeyword ["self", "parent", "static"])
      else anyName)
    continueReference

/-- Three dots alone stand for all arguments to come. -/
def argumentsPattern : Pattern Rule :=
  .node .arguments (mark "(" ++
    (.look fun ahead =>
      if atMark ")" ahead then .nothing
      else if atMark "..." ahead && atMark ")" (ahead.drop 1) then
        .node .clause (mark "...")
      else listed ")" (.rule .argument)) ++
    mark ")")

/-- An argument may have the name of its parameter in front. -/
def argumentPattern : Pattern Rule :=
  .node .argument
    (optional (fun ahead => atWord ahead && atMark ":" (ahead.drop 1))
      (.part .name name ++ mark ":") ++
      (.look fun ahead =>
        if atMark "..." ahead then .node .spread (mark "..." ++ anyExpression)
        else if atMark "&" ahead then .node .clause (mark "&") ++ anyExpression
        else anyExpression))

def byReference : Pattern Rule := .node .byReference (mark "&" ++ .rule .target)

def arrayElementPattern : Pattern Rule :=
  .node .arrayElement
    (.look fun ahead =>
      if atMark "..." ahead then .node .spread (mark "..." ++ anyExpression)
      else if atMark "&" ahead then byReference
      else anyExpression ++
        optional (atMark "=>") (mark "=>" ++ either (atMark "&") byReference anyExpression))

/-- A nested list to take apart. -/
def atNested (ahead : Ahead) : Bool :=
  atMark "[" ahead || (atKeyword "list" ahead && atMark "(" (ahead.drop 1))

def destination : Pattern Rule :=
  .look fun ahead =>
    if atNested ahead then .rule .destructuring
    else if atMark "&" ahead then byReference
    else .rule .target

/-- An item is a place to assign to, alone or after a key. -/
def continueItem (tree : Tree) (ahead : Ahead) :
    Option (Pattern Rule × (Tree → List Child → Tree)) :=
  if tree.kind == .clause then none
  else if atMark "=>" ahead then
    some (mark "=>" ++ destination, partOf .clause .none)
  else if isVariable tree.kind then none
  else some (.fail "=>", fun tree _ => tree)

def destructuringItem : Pattern Rule :=
  .look fun ahead =>
    if atMark "," ahead || atOneOf ["]", ")"] ahead then .nothing
    else if atMark "&" ahead || (atNested ahead && !atMark "=>" (afterGroup ahead)) then destination
    else .grow anyExpression continueItem

def destructuringPattern : Pattern Rule :=
  either (atMark "[")
    (.node .destructuring (mark "[" ++ separated destructuringItem ++ mark "]"))
    (.node .destructuring (keyword "list" ++ mark "(" ++ separated destructuringItem ++ mark ")"))

/-- A variable with its members, offsets and calls. -/
def targetPattern : Pattern Rule :=
  .grow (.rule .primary) fun tree _ =>
    if isVariable tree.kind then none else some (.fail "name", fun tree _ => tree)

end Untranslated.Php.Grammar
