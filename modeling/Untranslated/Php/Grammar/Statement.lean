/-
This file gives the patterns of types, statements and declarations, and the whole grammar.
A keyword is one only where the grammar has a place for it, and a plain name elsewhere.
-/

import Untranslated.Php.Grammar.Expression

namespace Untranslated.Php.Grammar

def statement : Pattern Rule := .rule .statement

def block : Pattern Rule := .rule .block

def type : Pattern Rule := .rule .type

def attributes : Pattern Rule := optional (atMark "#[") (.rule .attributes)

/-- An ampersand in front of a parameter is no part of its type. -/
def joinsTypes (ahead : Ahead) : Bool :=
  atMark "|" ahead || (atMark "&" ahead && !atOneOf ["$", "...", "&"] (ahead.drop 1))

def typePattern : Pattern Rule :=
  .node .type
    (either (atMark "?") (mark "?" ++ anyName)
      (.rule .typeAtom ++ .many joinsTypes (anyMark ["|", "&"] ++ .rule .typeAtom)))

def typeAtomPattern : Pattern Rule :=
  either (atMark "(") (mark "(" ++ type ++ mark ")") anyName

def visibility : List String := ["public", "protected", "private"]

def modifiers : List String := visibility ++ ["static", "final", "abstract", "readonly", "var"]

/-- A visibility may be that of writing alone. -/
def modifier : Pattern Rule :=
  .node .clause (anyKeyword modifiers ++
    optional (fun ahead => atMark "(" ahead && atKeyword "set" (ahead.drop 1))
      (mark "(" ++ keyword "set" ++ mark ")"))

def anyModifiers : Pattern Rule := .many (atKeywords modifiers) modifier

def plainVariable : Pattern Rule := .node .variable (mark "$" ++ name)

def initial : Pattern Rule := optional (atMark "=") (mark "=" ++ anyExpression)

/-- A parameter with a modifier is a property too. -/
def parameterModifiers : List String := "readonly" :: visibility

def parameter : Pattern Rule :=
  .node .declaration (attributes ++ .many (atKeywords parameterModifiers) modifier ++
    optional (fun ahead => !atOneOf ["$", "&", "..."] ahead) type ++ reference ++
    optional (atMark "...") (mark "...") ++ plainVariable ++ initial ++
    optional (atMark "\x7b") (.rule .hooks))

def parametersPattern : Pattern Rule :=
  .node .clause (mark "(" ++
    optional (fun ahead => !atMark ")" ahead) (listed ")" parameter) ++ mark ")")

def attributeItem : Pattern Rule :=
  anyName ++ optional (atMark "(") (.rule .arguments)

def attributesPattern : Pattern Rule :=
  .node .clause (.many (atMark "#[") (mark "#[" ++ listed "]" attributeItem ++ mark "]"))

def constants : Pattern Rule :=
  separated (.node .declaration (name ++ mark "=" ++ anyExpression))

def constantMember : Pattern Rule :=
  keyword "const" ++ optional (fun ahead => !atMark "=" (ahead.drop 1)) type ++ constants ++
    .separator

/-- The name, the parameters and the result of a function. -/
def signature : Pattern Rule :=
  keyword "function" ++ reference ++ name ++ .rule .parameters ++ returnType

def method : Pattern Rule := signature ++ either (atMark "\x7b") block .separator

def property : Pattern Rule :=
  optional (fun ahead => !atMark "$" ahead) type ++
    separated (.node .declaration (plainVariable ++ initial)) ++
    either (atMark "\x7b") (.rule .hooks) .separator

/-- A property hook has an expression, a block or no body. -/
def hook : Pattern Rule :=
  .node .declaration (attributes ++ anyModifiers ++ reference ++ name ++
    optional (atMark "(") (.rule .parameters) ++
    .look fun ahead =>
      if atMark "=>" ahead then mark "=>" ++ anyExpression ++ .separator
      else if atMark "\x7b" ahead then block
      else .separator)

def isInside (ahead : Ahead) : Bool :=
  !atMark "\x7d" ahead && !atEnding ahead && !headIs (·.shape == .broken) ahead

/-- Items in braces. -/
def braced (item : Pattern Rule) : Pattern Rule :=
  mark "\x7b" ++ .many isInside item ++ mark "\x7d"

/-- A method of a trait is taken over instead of others, or under another name or visibility. -/
def adaptation : Pattern Rule :=
  .node .clause
    (anyName ++ optional (atMark "::") (mark "::" ++ name) ++
      either (atKeyword "insteadof") (keyword "insteadof" ++ names)
        (keyword "as" ++ optional (atKeywords visibility) (anyKeyword visibility) ++
          optional atWord name) ++
      .separator)

def traitPattern : Pattern Rule :=
  keyword "use" ++ names ++ either (atMark "\x7b") (braced adaptation) .separator

def afterModifiers : Pattern Rule :=
  .look fun ahead =>
    if atKeyword "const" ahead then constantMember
    else if atKeyword "function" ahead then method
    else property

/-- A member without a modifier is a constant, a method or a list of traits. -/
def memberPattern : Pattern Rule :=
  .node .declaration
    (.look fun ahead =>
      if atKeyword "use" ahead then .rule .trait
      else attributes ++ .look fun ahead =>
        if atKeywords ("const" :: "function" :: modifiers) ahead then
          anyModifiers ++ afterModifiers
        else .fail "function")

def enumCase : Pattern Rule :=
  .node .declaration (attributes ++ keyword "case" ++ name ++ initial ++ .separator)

/-- The tokens after the attribute groups ahead. -/
def afterAttributes (fuel : Nat) (ahead : Ahead) : Ahead :=
  match fuel with
  | 0 => ahead
  | fuel + 1 => if atMark "#[" ahead then afterAttributes fuel (afterGroup ahead) else ahead

def pastAttributes (ahead : Ahead) : Ahead := afterAttributes ahead.length ahead

/-- Attributes and modifiers stand in front of a member. -/
def pastModifiers (ahead : Ahead) : Ahead :=
  (pastAttributes ahead).dropWhile fun l => l.shape == .word && modifiers.contains l.spelling

/-- An enumeration has no properties. -/
def enumMember : Pattern Rule :=
  .look fun ahead =>
    if atKeyword "case" (pastAttributes ahead) then enumCase
    else if atKeywords ["use", "const", "function"] (pastModifiers ahead) then .rule .member
    else .fail "function"

def classModifiers : List String := ["abstract", "final", "readonly"]

def classDeclaration : Pattern Rule :=
  .many (atKeywords classModifiers) (anyKeyword classModifiers) ++ keyword "class" ++ name ++
    heritage ++ .rule .classBody

def interfaceDeclaration : Pattern Rule :=
  keyword "interface" ++ name ++ bases ++ .rule .classBody

def traitDeclaration : Pattern Rule := keyword "trait" ++ name ++ .rule .classBody

def enumDeclaration : Pattern Rule :=
  keyword "enum" ++ name ++ returnType ++ interfaces ++ braced enumMember

def namespaceName : Pattern Rule := name ++ nameTail

def namespaceDeclaration : Pattern Rule :=
  .node .declaration (keyword "namespace" ++
    either (atMark "\x7b") block (namespaceName ++ either (atMark "\x7b") block .separator))

def importKind : Pattern Rule :=
  optional (fun ahead => atKeywords ["function", "const"] ahead && !atMark "\\" (ahead.drop 1))
    (anyKeyword ["function", "const"])

def newName : Pattern Rule := optional (atKeyword "as") (keyword "as" ++ name)

def importClause : Pattern Rule := .node .clause (anyName ++ newName)

def groupClause : Pattern Rule := .node .clause (importKind ++ namespaceName ++ newName)

/-- A declaration imports single names, or a group of names with a common beginning. -/
def useDeclaration : Pattern Rule :=
  .node .useDeclaration (keyword "use" ++ importKind ++ anyName ++
    either (atMark "\\")
      (mark "\\" ++ mark "\x7b" ++ separated groupClause ++ mark "\x7d")
      (newName ++ .many (atMark ",") (mark "," ++ importClause)) ++
    .separator)

/-- A declaration with attributes in front, or an expression that begins with them. -/
def attributed : Pattern Rule :=
  .look fun ahead =>
    let rest := pastAttributes ahead
    if atKeywords ("class" :: classModifiers) rest then
      .node .declaration (attributes ++ classDeclaration)
    else if atKeyword "interface" rest then
      .node .declaration (attributes ++ interfaceDeclaration)
    else if atKeyword "trait" rest then .node .declaration (attributes ++ traitDeclaration)
    else if atKeyword "enum" rest then .node .declaration (attributes ++ enumDeclaration)
    else if atKeyword "const" rest then
      .node .declaration (attributes ++ keyword "const" ++ constants ++ .separator)
    else if atKeyword "function" rest && !atMark "(" (rest.drop 1) &&
        !(atMark "&" (rest.drop 1) && atMark "(" (rest.drop 2)) then
      .node .declaration (attributes ++ signature ++ block)
    else .node .statement (anyExpression ++ .separator)

/-- Statements up to one of the given keywords. -/
def upTo (keywords : List String) : Pattern Rule :=
  .many (fun ahead => isInside ahead && !atKeywords keywords ahead) statement

/-- The statements of a loop between a colon and the keyword that ends it. -/
def colonBlock (ending : String) : Pattern Rule :=
  mark ":" ++ upTo [ending] ++ keyword ending ++ .separator

/-- A loop has one statement, no statement, or statements after a colon. -/
def loopBody (ending : String) : Pattern Rule :=
  .look fun ahead =>
    if atMark ":" ahead then colonBlock ending
    else if afterBreak ahead then .separator
    else statement

/-- These branches belong to the statement with colons around this one. -/
def atOuterBranch (ahead : Ahead) : Bool :=
  (atKeyword "else" ahead && atMark ":" (ahead.drop 1)) ||
    (atKeyword "elseif" ahead && atMark ":" (afterGroup (ahead.drop 1)))

def branches : Pattern Rule :=
  .many (fun ahead => atKeyword "elseif" ahead && !atOuterBranch ahead)
      (.node .clause (keyword "elseif" ++ parenthesized ++ statement)) ++
    optional (fun ahead => atKeyword "else" ahead && !atOuterBranch ahead)
      (.node .clause (keyword "else" ++ statement))

def colonBranches : Pattern Rule :=
  let list := upTo ["elseif", "else", "endif"]
  mark ":" ++ list ++
    .many (atKeyword "elseif")
      (.node .clause (keyword "elseif" ++ parenthesized ++ mark ":" ++ list)) ++
    optional (atKeyword "else") (.node .clause (keyword "else" ++ mark ":" ++ list)) ++
    keyword "endif" ++ .separator

def ifStatement : Pattern Rule :=
  keyword "if" ++ parenthesized ++ either (atMark ":") colonBranches (statement ++ branches)

def sequence : Pattern Rule := separated anyExpression

def forStatement : Pattern Rule :=
  keyword "for" ++ mark "(" ++ optional (fun ahead => !atMark ";" ahead) sequence ++ mark ";" ++
    optional (fun ahead => !atMark ";" ahead) sequence ++ mark ";" ++
    optional (fun ahead => !atMark ")" ahead) sequence ++ mark ")" ++ loopBody "endfor"

/-- A value of a loop is a reference, a list to take apart or a place to assign to. -/
def loopValue : Pattern Rule :=
  .look fun ahead =>
    if atMark "&" ahead then byReference
    else if atNested ahead && atMark ")" (afterNested ahead) then .rule .destructuring
    else anyExpression
where
  afterNested (ahead : Ahead) : Ahead :=
    afterGroup (if atMark "[" ahead then ahead else ahead.drop 1)

def foreachStatement : Pattern Rule :=
  keyword "foreach" ++ mark "(" ++ anyExpression ++ keyword "as" ++ loopValue ++
    optional (atMark "=>") (mark "=>" ++ loopValue) ++ mark ")" ++ loopBody "endforeach"

def caseEnd : Pattern Rule := either (atMark ":") (mark ":") .separator

def switchCase : Pattern Rule :=
  .node .clause
    (either (atKeyword "case") (keyword "case" ++ anyExpression) (keyword "default") ++ caseEnd ++
      upTo ["case", "default", "endswitch"])

def switchStatement : Pattern Rule :=
  keyword "switch" ++ parenthesized ++
    either (atMark ":")
      (mark ":" ++ .many (fun ahead => isInside ahead && !atKeyword "endswitch" ahead) switchCase ++
        keyword "endswitch" ++ .separator)
      (braced switchCase)

def catchClause : Pattern Rule :=
  .node .clause (keyword "catch" ++ mark "(" ++ anyName ++
    .many (atMark "|") (mark "|" ++ anyName) ++ optional (atMark "$") plainVariable ++ mark ")" ++
    block)

def finallyClause : Pattern Rule := .node .clause (keyword "finally" ++ block)

/-- At least one handler has to follow. -/
def tryStatement : Pattern Rule :=
  let handler := either (atKeyword "finally") finallyClause catchClause
  keyword "try" ++ block ++ handler ++ .many (atKeywords ["catch", "finally"]) handler

def declareStatement : Pattern Rule :=
  keyword "declare" ++ mark "(" ++ anyKeyword ["ticks", "encoding", "strict_types"] ++ mark "=" ++
    .rule .atom ++ mark ")" ++ loopBody "enddeclare"

def exitStatement : Pattern Rule :=
  keyword "exit" ++
    optional (atMark "(")
      (mark "(" ++ optional (fun ahead => !atMark ")" ahead) anyExpression ++ mark ")") ++
    .separator

def unsetStatement : Pattern Rule :=
  keyword "unset" ++ mark "(" ++ listed ")" (.rule .target) ++ mark ")" ++ .separator

def staticVariables : Pattern Rule :=
  keyword "static" ++ separated (.node .declaration (plainVariable ++ initial)) ++ .separator

/-- A keyword with an expression that may be missing. -/
def jump (spelling : String) : Pattern Rule :=
  keyword spelling ++ optional startsExpression anyExpression ++ .separator

def expressionStatement : Pattern Rule := anyExpression ++ .separator

/-- The keywords that begin a statement, with its pattern. -/
def keywordStatements : List (String × Pattern Rule) :=
  [("echo", keyword "echo" ++ sequence ++ .separator), ("break", jump "break"),
    ("continue", jump "continue"), ("if", ifStatement),
    ("while", keyword "while" ++ parenthesized ++ loopBody "endwhile"),
    ("do", keyword "do" ++ statement ++ keyword "while" ++ parenthesized ++ .separator),
    ("for", forStatement), ("foreach", foreachStatement), ("switch", switchStatement),
    ("try", tryStatement), ("declare", declareStatement),
    ("goto", keyword "goto" ++ name ++ .separator), ("exit", exitStatement),
    ("unset", unsetStatement), ("const", keyword "const" ++ constants ++ .separator),
    ("global", keyword "global" ++ separated simpleVariable ++ .separator)]

def declarationKeywords : List String :=
  ["class", "abstract", "final", "readonly", "interface", "trait", "enum", "function"]

def statementPattern : Pattern Rule :=
  .look fun ahead =>
    if atMark ";" ahead then .node .statement (mark ";")
    else if atMark "\x7b" ahead then block
    else if atKeyword "return" ahead then .node .returnStatement (jump "return")
    else if atKeyword "use" ahead then useDeclaration
    else if atKeyword "namespace" ahead && !atMark "\\" (ahead.drop 1) then namespaceDeclaration
    else if atMark "#[" ahead || atKeywords declarationKeywords ahead then attributed
    else if atKeyword "static" ahead && atMark "$" (ahead.drop 1) then
      .node .statement staticVariables
    else
      match ahead.head?.bind fun l =>
          if l.shape == .word then keywordStatements.lookup l.spelling else none with
      | some pattern => .node .statement pattern
      | none =>
        if atWord ahead && atMark ":" (ahead.drop 1) then .node .statement (name ++ mark ":")
        else .node .statement expressionStatement

def programPattern : Pattern Rule :=
  .node .program
    (.many (fun ahead => !atEnding ahead) statement ++ shaped .token .ending)

/-- The pattern of each rule. -/
def grammar : Rule → Pattern Rule
  | .program => programPattern
  | .statement => statementPattern
  | .block => .node .statement (braced statement)
  | .classBody => .node .clause (braced (.rule .member))
  | .member => memberPattern
  | .trait => traitPattern
  | .hooks => .node .clause (braced hook)
  | .expression level => .grow (.rule .operand) (continueExpression level)
  | .operand => operandPattern
  | .primary => .grow (.rule .atom) continuePrimary
  | .atom => atomPattern
  | .variable => variablePattern
  | .classReference => classReferencePattern
  | .arguments => argumentsPattern
  | .argument => argumentPattern
  | .arrayElement => arrayElementPattern
  | .destructuring => destructuringPattern
  | .target => targetPattern
  | .parameters => parametersPattern
  | .type => typePattern
  | .typeAtom => typeAtomPattern
  | .attributes => attributesPattern

end Untranslated.Php.Grammar
