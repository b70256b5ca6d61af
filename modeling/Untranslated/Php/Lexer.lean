/-
This file divides the text of a PHP file into tokens.
Each step looks at what is left of the text and at the constructs that are still open.
-/

import Untranslated.Php.Lexeme
import Untranslated.Php.Source

namespace Untranslated.Php

/-- These characters are blank in code, though some of them are no ASCII blanks. -/
def isCodeBlank (c : Char) : Bool :=
  ('\t' ≤ c && c ≤ '\r') || c == ' ' || c == '\u00A0' || c == '\u200B' || c == '\u2060' ||
    c == '\uFEFF'

/-- Names are made of characters of at most sixteen bits. -/
def isNameStart (c : Char) : Bool :=
  c.isAlpha || c == '_' || (0x80 ≤ c.toNat && c.toNat ≤ 0xFFFF && !isCodeBlank c)

def isNamePart (c : Char) : Bool := isNameStart c || c.isDigit

/-- In quoted text a longer character begins a name too, though none can be read there. -/
def isLabelStart (c : Char) : Bool := isNameStart c || 0x10000 ≤ c.toNat

def isLabelPart (c : Char) : Bool := isLabelStart c || c.isDigit

/-- A quoted text ends at its mark, a document at its label. -/
inductive Quotation where
  | double
  | shell
  | document (label : List Char)
deriving DecidableEq

/-- The constructs that can be open, innermost first. A hole is code inside a quoted text. -/
inductive Frame where
  | bracket (opening : Char)
  | hole
  | quoted (quotation : Quotation)
  | variable
  | offset
  | property
deriving DecidableEq

/-- The reader knows what is open, whether an operand came last and whether a line begins. -/
structure ReaderState where
  frames : List Frame
  operand : Bool
  lineStart : Bool

/-- One step passes over a blank or an extra, or gives a token. All sizes are positive. -/
inductive LexStep where
  | blank (size : Nat)
  | extra (filler : Filler) (size : Nat)
  | lexeme (shape : Shape) (spelling : String) (size : Nat) (frames : List Frame)

/-- The length of an opening tag after its question mark. -/
def tagTail (cs : List Char) : Nat :=
  if (cs.take 3).map lowerAscii == ['p', 'h', 'p'] then 3
  else if cs.head? == some '=' then 1
  else 0

/-- The length of template text with the tag that ends it. -/
def markupLength : List Char → Nat
  | [] => 0
  | '<' :: '?' :: rest => 2 + tagTail rest
  | _ :: rest => 1 + markupLength rest

/-- The length of a line comment after its introduction. It stops before a closing tag. -/
def lineCommentLength : List Char → Nat
  | '?' :: '\r' :: '\n' :: _ => 3
  | '?' :: '\n' :: _ => 2
  | '?' :: '\r' :: _ => 0
  | '?' :: '>' :: _ => 0
  | '?' :: _ :: rest => 2 + lineCommentLength rest
  | ['?'] => 0
  | '\r' :: _ => 0
  | '\n' :: _ => 0
  | _ :: rest => 1 + lineCommentLength rest
  | [] => 0

/-- The length up to and with the end of a block comment. -/
def blockCommentLength? : List Char → Option Nat
  | [] => none
  | '*' :: '/' :: _ => some 2
  | _ :: rest => (blockCommentLength? rest).map (· + 1)

/-- The length up to and with the closing mark. A backslash takes the next character with it. -/
def singleQuotedLength? : List Char → Option Nat
  | [] => none
  | '\'' :: _ => some 1
  | '\\' :: _ :: rest => (singleQuotedLength? rest).map (· + 2)
  | _ :: rest => (singleQuotedLength? rest).map (· + 1)

def isIndent (c : Char) : Bool := c == ' ' || c == '\t'

/-- A single quoted text after its opening. -/
def singleQuotedStep (opening : Nat) (frames : List Frame) (cs : List Char) : LexStep :=
  match singleQuotedLength? (cs.drop opening) with
  | some size => .lexeme .singleQuoted "" (opening + size) frames
  | none => .lexeme .broken "" cs.length frames

/-- The length of the closing line of a document up to the end of its label. -/
def closingLabel? (label cs : List Char) : Option Nat :=
  let indent := (cs.takeWhile isIndent).length
  let rest := cs.drop indent
  if label.isPrefixOf rest &&
      !((rest.drop label.length).head?.any isLabelPart) then some (indent + label.length)
  else none

inductive PieceEnd where
  | closed
  | interpolation
  | unclosed
deriving DecidableEq

def Quotation.closes (quotation : Quotation) (lineStart : Bool) (cs : List Char) : Bool :=
  match quotation with
  | .double => cs.head? == some '"'
  | .shell => cs.head? == some '\x60'
  | .document label => lineStart && (closingLabel? label cs).isSome

/-- A variable name after a dollar sign, or a brace beside one, begins an interpolation. -/
def beginsInterpolation : List Char → Bool
  | '$' :: c :: _ => isLabelStart c || c == '\x7b'
  | '\x7b' :: '$' :: _ => true
  | _ => false

def isEscapable (c : Char) : Bool :=
  c == '\\' || c == '$' || c == '"' || c == '\x60' || c == '\x7b'

/-- The length of the plain text up to an interpolation or the end. -/
def piece (quotation : Quotation) (lineStart : Bool) : List Char → Nat × PieceEnd
  | [] => (0, .unclosed)
  | '\\' :: c :: rest =>
    if quotation.closes lineStart ('\\' :: c :: rest) then (0, .closed)
    else if isEscapable c then
      let (size, ending) := piece quotation false rest
      (size + 2, ending)
    else
      let (size, ending) := piece quotation false (c :: rest)
      (size + 1, ending)
  | c :: rest =>
    if quotation.closes lineStart (c :: rest) then (0, .closed)
    else if beginsInterpolation (c :: rest) then (0, .interpolation)
    else
      let (size, ending) := piece quotation (c == '\n' || c == '\r') rest
      (size + 1, ending)

def endsLine (cs : List Char) : Bool :=
  match cs.getLast? with
  | some c => c == '\n' || c == '\r'
  | none => false

/-- The closing part of a quoted text at its place. -/
def closingLength (quotation : Quotation) (cs : List Char) : Nat :=
  match quotation with
  | .document label => (closingLabel? label cs).getD 1
  | _ => 1

/-- A quoted text after its opening. It is one token if it has no interpolation. -/
def quotedStep (whole : Shape) (quotation : Quotation) (opening : Nat) (frames : List Frame)
    (cs : List Char) : LexStep :=
  let inner := cs.drop opening
  let isDocument := match quotation with | .document _ => true | _ => false
  match piece quotation isDocument inner with
  | (size, .closed) =>
    .lexeme whole "" (opening + size + closingLength quotation (inner.drop size)) frames
  | (_, .interpolation) =>
    .lexeme .templateOpening "" opening (.quoted quotation :: frames)
  | (_, .unclosed) => .lexeme .broken "" cs.length frames

/-- A nowdoc holds everything up to the line of its label. -/
def nowdocLength? (label : List Char) (lineStart : Bool) : List Char → Option Nat
  | [] => if lineStart then closingLabel? label [] else none
  | c :: rest =>
    match if lineStart then closingLabel? label (c :: rest) else none with
    | some size => some size
    | none => (nowdocLength? label (c == '\n' || c == '\r') rest).map (· + 1)

def newlineLength : List Char → Nat
  | '\r' :: '\n' :: _ => 2
  | '\r' :: _ => 1
  | '\n' :: _ => 1
  | _ => 0

/-- The mark in front of the label of a document, if there is one. -/
def labelMark (cs : List Char) : List Char := (cs.take 1).filter fun c => c == '\'' || c == '"'

/-- A label with the same mark after it and the end of its line: its length and the label. -/
def labelLine? (mark cs : List Char) : Option (Nat × List Char) :=
  let label := cs.takeWhile isLabelPart
  let afterLabel := cs.drop label.length
  let afterMark := afterLabel.drop mark.length
  let trailing := (afterMark.takeWhile isIndent).length
  let newline := newlineLength (afterMark.drop trailing)
  if label.isEmpty || !mark.isPrefixOf afterLabel || newline == 0 then none
  else some (label.length + mark.length + trailing + newline, label)

/-- The opening line of a document after its three angle brackets: its length, its label and
whether it is a nowdoc. -/
def documentOpening? (cs : List Char) : Option (Nat × List Char × Bool) :=
  let indent := (cs.takeWhile isIndent).length
  let mark := labelMark (cs.drop indent)
  match labelLine? mark ((cs.drop indent).drop mark.length) with
  | none => none
  | some (size, label) => some (indent + mark.length + size, label, mark == ['\''])

/-- A document with its optional letter in front. -/
def documentStep (letter : Nat) (frames : List Frame) (cs : List Char) : LexStep :=
  match documentOpening? (cs.drop (letter + 3)) with
  | none => .lexeme .broken "" cs.length frames
  | some (size, label, isNowdoc) =>
    let opening := letter + 3 + size
    if isNowdoc then
      match nowdocLength? label true (cs.drop opening) with
      | none => .lexeme .broken "" cs.length frames
      | some size => .lexeme .nowdoc "" (opening + size) frames
    else quotedStep .heredoc (.document label) opening frames cs

/-- Digits with single underscores between them. -/
def digitsLength (isDigit : Char → Bool) : List Char → Nat
  | [] => 0
  | '_' :: c :: rest => if isDigit c then 2 + digitsLength isDigit rest else 0
  | c :: rest => if isDigit c then 1 + digitsLength isDigit rest else 0

def runLength (isDigit : Char → Bool) (cs : List Char) : Nat :=
  match cs with
  | c :: _ => if isDigit c then digitsLength isDigit cs else 0
  | [] => 0

def isOctal (c : Char) : Bool := '0' ≤ c && c ≤ '7'

def isBinary (c : Char) : Bool := c == '0' || c == '1'

def isHex (c : Char) : Bool :=
  c.isDigit || ('a' ≤ c && c ≤ 'f') || ('A' ≤ c && c ≤ 'F')

/-- A radix letter and at least one digit. -/
def radixLength (isDigit : Char → Bool) (cs : List Char) : Nat :=
  match runLength isDigit (cs.drop 2) with
  | 0 => 0
  | size => 2 + size

def integerLength (cs : List Char) : Nat :=
  match cs with
  | '0' :: c :: rest =>
    if c == 'x' || c == 'X' then max 1 (radixLength isHex cs)
    else if c == 'b' || c == 'B' then max 1 (radixLength isBinary cs)
    else if c == 'o' || c == 'O' then 2 + digitsLength isOctal rest
    else 1 + digitsLength isOctal (c :: rest)
  | _ => runLength Char.isDigit cs

def exponentLength (cs : List Char) : Nat :=
  match cs with
  | mark :: rest =>
    if mark == 'e' || mark == 'E' then
      let sign := if rest.head? == some '+' || rest.head? == some '-' then 1 else 0
      match runLength Char.isDigit (rest.drop sign) with
      | 0 => 0
      | size => 1 + sign + size
    else 0
  | [] => 0

/-- A number with a point or an exponent. -/
def realLength (cs : List Char) : Nat :=
  let whole := runLength Char.isDigit cs
  let rest := cs.drop whole
  let fraction :=
    if rest.head? == some '.' then 1 + runLength Char.isDigit (rest.drop 1) else 0
  let scale := exponentLength (rest.drop fraction)
  if fraction + scale == 0 || whole + fraction == 0 || whole + fraction == 1 && fraction == 1 then 0
  else whole + fraction + scale

def numberStep (frames : List Frame) (cs : List Char) : LexStep :=
  let integer := integerLength cs
  let real := realLength cs
  if integer < real then .lexeme .real "" real frames
  else .lexeme .integer "" (max 1 integer) frames

/-- The marks of the language, longer ones first. -/
def marks : List String :=
  ["**=", "...", "<=>", "===", "!==", "<<=", ">>=", "??=", "?->",
    "&&", "||", "??", "->", "=>", "::", "==", "!=", "<>", "<=", ">=", "<<", ">>", "++", "--",
    "+=", "-=", "*=", "/=", ".=", "%=", "&=", "|=", "^=", "**", "|>", "#[",
    "+", "-", "*", "/", "%", "=", "<", ">", "!", ".", "(", ")", "[", "]", "\x7b", "\x7d", ",",
    ";", "?", ":", "&", "|", "^", "~", "@", "$", "\\"]

def mark? (cs : List Char) : Option String :=
  marks.find? fun mark => mark.toList.isPrefixOf cs

/-- A closing bracket closes the innermost bracket of its kind. -/
def closeFrame (opening : Char) (frames : List Frame) : List Frame :=
  match frames with
  | .bracket c :: rest => if c == opening then rest else frames
  | .hole :: rest => if opening == '\x7b' then rest else frames
  | _ => frames

def framesAfter (mark : String) (frames : List Frame) : List Frame :=
  if mark == "(" then .bracket '(' :: frames
  else if mark == "[" || mark == "#[" then .bracket '[' :: frames
  else if mark == "\x7b" then .bracket '\x7b' :: frames
  else if mark == ")" then closeFrame '(' frames
  else if mark == "]" then closeFrame '[' frames
  else if mark == "\x7d" then closeFrame '\x7b' frames
  else frames

/-- After these words an operand is still to come. -/
def isPrefixWord (word : String) : Bool :=
  ["return", "echo", "print", "and", "or", "xor", "case", "new", "clone", "throw", "yield", "else",
    "do", "include", "include_once", "require", "require_once", "instanceof", "as", "from",
    "default"].contains word

def endsOperand (shape : Shape) (spelling : String) : Bool :=
  match shape with
  | .word => !isPrefixWord spelling
  | .mark => spelling == ")" || spelling == "]" || spelling == "\x7d"
  | .templateOpening | .templateText | .ending | .broken => false
  | _ => true

def isPrefixLetter (word : List Char) : Bool := word == ['b'] || word == ['B']

/-- A place for a word may hold none. -/
def wordStep (frames : List Frame) (cs : List Char) : LexStep :=
  let word := cs.takeWhile isNamePart
  if word.isEmpty then .lexeme .broken "" cs.length frames
  else .lexeme .word (String.ofList (word.map lowerAscii)) word.length frames

/-- A quoted text may have the letter `b` in front. -/
def nameStep (state : ReaderState) (cs : List Char) : LexStep :=
  let word := cs.takeWhile isNamePart
  let rest := cs.drop word.length
  if isPrefixLetter word then
    match rest with
    | '\'' :: _ => singleQuotedStep 2 state.frames cs
    | '"' :: _ => quotedStep .doubleQuoted .double 2 state.frames cs
    | '<' :: '<' :: '<' :: _ => documentStep 1 state.frames cs
    | _ => wordStep state.frames cs
  else wordStep state.frames cs

/-- One step inside code where no template text, no comment and no quotation begins. -/
def plainStep (state : ReaderState) (c : Char) (rest : List Char) : LexStep :=
  if isCodeBlank c then .blank 1
  else if isNameStart c then nameStep state (c :: rest)
  else if c.isDigit then numberStep state.frames (c :: rest)
  else if c == '.' && !state.operand && rest.head?.any Char.isDigit then
    numberStep state.frames (c :: rest)
  else if !state.operand && (c :: rest).take 3 == ['<', '<', '<'] then
    documentStep 0 state.frames (c :: rest)
  else
    match mark? (c :: rest) with
    | some mark => .lexeme .mark mark mark.length (framesAfter mark state.frames)
    | none => .lexeme .broken "" (rest.length + 1) state.frames

/-- One step inside code. -/
def codeStep (state : ReaderState) (cs : List Char) : LexStep :=
  match cs with
  | [] => .blank 1
  | '?' :: '>' :: rest => .extra .markup (2 + markupLength rest)
  | '/' :: '/' :: rest => .extra .lineComment (2 + lineCommentLength rest)
  | '/' :: '*' :: rest =>
    match blockCommentLength? rest with
    | some size => .extra .blockComment (2 + size)
    | none => .lexeme .broken "" cs.length state.frames
  | '#' :: '[' :: _ => .lexeme .mark "#[" 2 (framesAfter "#[" state.frames)
  | '#' :: c :: rest =>
    if c == '?' || c == '\r' || c == '\n' then .extra .hashComment 1
    else .extra .hashComment (2 + lineCommentLength rest)
  | ['#'] => .extra .hashComment 1
  | '\'' :: _ => singleQuotedStep 1 state.frames cs
  | '"' :: _ => quotedStep .doubleQuoted .double 1 state.frames cs
  | '\x60' :: _ => quotedStep .shellQuoted .shell 1 state.frames cs
  | c :: rest => plainStep state c rest

/-- One step inside a quoted text. -/
def quotedTextStep (quotation : Quotation) (state : ReaderState) (cs : List Char) : LexStep :=
  match piece quotation state.lineStart cs with
  | (_, .unclosed) => .lexeme .broken "" cs.length state.frames
  | (0, .closed) =>
    .lexeme .templateClosing "" (closingLength quotation cs) (state.frames.drop 1)
  | (0, .interpolation) =>
    match cs with
    | '$' :: '\x7b' :: _ => .lexeme .mark "$\x7b" 2 (.hole :: state.frames)
    | '$' :: _ => .lexeme .mark "$" 1 (.variable :: state.frames)
    | _ => .lexeme .mark "\x7b" 1 (.hole :: state.frames)
  | (size, _) => .lexeme .templateText "" size state.frames

/-- What is open after the name of a variable in a quoted text: one offset, one property or
neither. -/
def framesAfterName (outer : List Frame) (rest : List Char) : List Frame :=
  match rest with
  | '[' :: _ => .offset :: outer
  | '-' :: '>' :: c :: _ => if isNameStart c then .property :: outer else outer
  | _ => outer

/-- The name of a variable in a quoted text. -/
def variableStep (state : ReaderState) (cs : List Char) : LexStep :=
  let rest := cs.drop (cs.takeWhile isNamePart).length
  wordStep (framesAfterName (state.frames.drop 1) rest) cs

/-- The offset of a variable in a quoted text is a name, an integer or a variable. -/
def offsetStep (state : ReaderState) (cs : List Char) : LexStep :=
  match cs with
  | '[' :: _ => .lexeme .mark "[" 1 state.frames
  | ']' :: _ => .lexeme .mark "]" 1 (state.frames.drop 1)
  | '$' :: _ => .lexeme .mark "$" 1 state.frames
  | '-' :: _ => .lexeme .mark "-" 1 state.frames
  | c :: _ =>
    if isNameStart c then wordStep state.frames cs
    else if c.isDigit then .lexeme .integer "" (max 1 (integerLength cs)) state.frames
    else .lexeme .broken "" cs.length state.frames
  | [] => .blank 1

/-- The property of a variable in a quoted text. -/
def propertyStep (state : ReaderState) (cs : List Char) : LexStep :=
  match cs with
  | '-' :: '>' :: _ => .lexeme .mark "->" 2 state.frames
  | _ => wordStep (state.frames.drop 1) cs

def lexStep (state : ReaderState) (cs : List Char) : LexStep :=
  match state.frames with
  | .quoted quotation :: _ => quotedTextStep quotation state cs
  | .variable :: _ => variableStep state cs
  | .offset :: _ => offsetStep state cs
  | .property :: _ => propertyStep state cs
  | _ => codeStep state cs

/-- Inside round and square brackets template text ends no statement. -/
def breaksStatement (frames : List Frame) : Bool :=
  match frames with
  | .bracket c :: _ => c == '\x7b'
  | _ => true

def hasMarkup (lead : List Extra) : Bool := lead.any (·.filler == .markup)

def makeToken (state : ReaderState) (lead : List Extra) (offset : Nat) (shape : Shape)
    (spelling : String) (size : Nat) : Token where
  lexeme := ⟨shape, spelling, hasMarkup lead && breaksStatement state.frames⟩
  lead := lead
  start := offset
  stop := offset + size

/-- The tokens of what is left of the text. The last one is the end or a broken one. -/
def tokensFrom (state : ReaderState) (lead : List Extra) (offset : Nat) :
    Nat → List Char → List Token
  | 0, _ => [makeToken state lead offset .ending "" 0]
  | _ + 1, [] => [makeToken state lead offset .ending "" 0]
  | fuel + 1, c :: cs =>
    match lexStep state (c :: cs) with
    | .blank size => tokensFrom state lead (offset + size) fuel ((c :: cs).drop size)
    | .extra filler size =>
      let next := { state with operand := state.operand && filler != .markup }
      tokensFrom next (lead ++ [⟨filler, offset, offset + size⟩]) (offset + size) fuel
        ((c :: cs).drop size)
    | .lexeme shape spelling size frames =>
      let token := makeToken state lead offset shape spelling size
      if shape == .broken then [token]
      else
        let next : ReaderState :=
          ⟨frames, endsOperand shape spelling,
            shape == .templateText && endsLine ((c :: cs).take size)⟩
        token :: tokensFrom next [] (offset + size) fuel ((c :: cs).drop size)

/-- The text up to the first opening tag is template text. -/
def tokens (text : List Char) : List Token :=
  let first := markupLength text
  tokensFrom ⟨[], false, false⟩ [] first (text.length + 1) (text.drop first)

end Untranslated.Php
