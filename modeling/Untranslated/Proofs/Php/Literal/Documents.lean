/-
This file proves that the body of a heredoc or nowdoc is read as it was written.
-/

import Untranslated.Php.Syntax
import Untranslated.Proofs.Php.Escapes
import Untranslated.Proofs.Php.Literal.Pieces
import Untranslated.Proofs.Text.Splitting

namespace Untranslated.Php.Literal

open Text (isWord join splitWhere)

/-- A line of a document stands behind the indentation. An empty one may go without. -/
inductive DocumentLine where
  | indented (content : Text)
  | bare

/-- A line without the indentation. -/
def DocumentLine.content : DocumentLine → Text
  | .indented content => content
  | .bare => []

/-- A line as it is written. -/
def DocumentLine.written (indentation : Text) : DocumentLine → Text
  | .indented content => indentation ++ content
  | .bare => []

/-- A heredoc or nowdoc as it is written. The opening line may end in a carriage return and a
newline. The last line of the body does not end in a carriage return, for that would be read as a
part of the line end. -/
structure Document where
  letter : Text
  leading : Text
  quote : Text
  label : Text
  trailing : Text
  lineEnd : Text
  lines : List DocumentLine
  indentation : Text
  letterKnown : letter ∈ [Text.ofString "", Text.ofString "b", Text.ofString "B"]
  quoteKnown : quote ∈ [Text.ofString "", Text.ofString "'", Text.ofString "\""]
  lineEndKnown : lineEnd ∈ [Text.ofString "\n", Text.ofString "\r\n"]
  labelFilled : label ≠ []
  labelWord : ∀ c ∈ label, isWord c = true
  leadingBlank : ∀ c ∈ leading, isIndentation c = true
  trailingBlank : ∀ c ∈ trailing, isIndentation c = true
  indentationBlank : ∀ c ∈ indentation, isIndentation c = true
  noNewline : ∀ line ∈ lines, ∀ c ∈ line.content, isNewline c = false
  noReturn : ∀ line ∈ lines.getLast?, line.content.getLast? ≠ some (.ofChar '\r')

/-- The closing line is the indentation and the label. -/
def Document.rows (document : Document) : List Text :=
  document.lines.map (DocumentLine.written document.indentation) ++
    [document.indentation ++ document.label]

/-- The document as it is written. -/
def Document.text (document : Document) : Text :=
  document.letter ++ Text.ofString "<<<" ++ document.leading ++ document.quote ++ document.label ++
    document.quote ++ document.trailing ++ document.lineEnd ++ join "\n" document.rows

/-- The lines of the body without the indentation. -/
def Document.body (document : Document) : Text :=
  join "\n" (document.lines.map DocumentLine.content)

/-- No word character is an indentation. -/
theorem isIndentation_word {c : CodePoint} (word : isWord c = true) : isIndentation c = false := by
  rw [isIndentation, is_other word (Text.isWord_mark (by decide)),
    is_other word (Text.isWord_mark (by decide))]
  rfl

theorem isNewline_word {c : CodePoint} (word : isWord c = true) : isNewline c = false :=
  is_other word (Text.isWord_mark (by decide))

/-- No word character is a quote. -/
theorem isQuoteMark_word {c : CodePoint} (word : isWord c = true) : isQuoteMark c = false := by
  rw [isQuoteMark, is_other word (Text.isWord_mark (by decide)),
    is_other word (Text.isWord_mark (by decide))]
  rfl

/-- An indentation has blanks and tabs. -/
theorem isIndentation_iff {c : CodePoint} :
    isIndentation c = true ↔ c = .ofChar ' ' ∨ c = .ofChar '\t' := by
  rw [isIndentation, Bool.or_eq_true, is_iff, is_iff]

/-- No newline is in an indentation. -/
theorem isNewline_indentation {c : CodePoint} (blank : isIndentation c = true) :
    isNewline c = false := by
  rcases isIndentation_iff.mp blank with rfl | rfl <;> decide

/-- No word character is in an indentation. -/
theorem isWord_indentation {c : CodePoint} (blank : isIndentation c = true) :
    isWord c = false := by
  rcases isIndentation_iff.mp blank with rfl | rfl <;> exact Text.isWord_mark (by decide)

section

variable (document : Document)

/-- A label begins with a word character. -/
theorem Document.label_cons : ∃ c rest, document.label = c :: rest ∧ isWord c = true := by
  cases is : document.label with
  | nil => exact absurd is document.labelFilled
  | cons c rest => exact ⟨c, rest, rfl, document.labelWord c (is ▸ List.mem_cons_self)⟩

/-- The label is quoted by a mark or not at all. -/
theorem Document.quote_cases : document.quote = [] ∨ ∃ c, document.quote = [c] ∧
    isQuoteMark c = true ∧ isIndentation c = false ∧ isWord c = false := by
  have known := document.quoteKnown
  simp only [List.mem_cons, List.not_mem_nil, or_false] at known
  rcases known with is | is | is
  · exact .inl is
  · exact .inr ⟨_, is, by decide, by decide, Text.isWord_mark (by decide)⟩
  · exact .inr ⟨_, is, by decide, by decide, Text.isWord_mark (by decide)⟩

/-- The end of the opening line is neither in an indentation nor in a word. -/
theorem Document.lineEnd_cons : ∃ c rest, document.lineEnd = c :: rest ∧
    isIndentation c = false ∧ isWord c = false := by
  have known := document.lineEndKnown
  simp only [List.mem_cons, List.not_mem_nil, or_false] at known
  rcases known with is | is <;>
    exact ⟨_, _, is, by decide, Text.isWord_mark (by decide)⟩

/-- The letter in front of a document is left out. -/
theorem withoutLetter_document (tail : Text) :
    withoutLetter (document.letter ++ (Text.ofString "<<<" ++ tail)) =
      Text.ofString "<<<" ++ tail := by
  have known := document.letterKnown
  simp only [List.mem_cons, List.not_mem_nil, or_false] at known
  rcases known with is | is | is <;> rw [is] <;> rfl

/-- The label in its quotes does not begin with a blank. -/
theorem Document.skipped (tail : Text) :
    (document.leading ++ (document.quote ++ (document.label ++ tail))).dropWhile isIndentation =
      document.quote ++ (document.label ++ tail) := by
  rcases document.quote_cases with noQuote | ⟨c, quoted, -, other, -⟩
  · obtain ⟨c, rest, label, word⟩ := document.label_cons
    rw [noQuote, label]
    exact Text.dropWhile_stop document.leadingBlank (isIndentation_word word) (rest ++ tail)
  · rw [quoted]
    exact Text.dropWhile_stop document.leadingBlank other (document.label ++ tail)

/-- The mark in front of the label is read. -/
theorem Document.quoted (tail : Text) :
    ((document.quote ++ (document.label ++ tail)).take 1).filter isQuoteMark =
      document.quote := by
  rcases document.quote_cases with noQuote | ⟨c, quoted, mark, -, -⟩
  · obtain ⟨c, rest, label, word⟩ := document.label_cons
    simp [noQuote, label, isQuoteMark_word word]
  · simp [quoted, mark]

/-- No character of the label comes right behind it. -/
theorem Document.labelled (rest : Text) :
    (document.label ++ (document.quote ++ (document.trailing ++ (document.lineEnd ++
      rest)))).takeWhile isWord = document.label := by
  rcases document.quote_cases with noQuote | ⟨c, quoted, -, -, other⟩
  · rw [noQuote, List.nil_append]
    cases is : document.trailing with
    | nil =>
        obtain ⟨c, more, lineEnd, -, other⟩ := document.lineEnd_cons
        rw [lineEnd]
        exact Text.takeWhile_stop document.labelWord other (more ++ rest)
    | cons c more =>
        have blank := document.trailingBlank c (is ▸ List.mem_cons_self)
        exact Text.takeWhile_stop document.labelWord (isWord_indentation blank)
          (more ++ (document.lineEnd ++ rest))
  · rw [quoted]
    exact Text.takeWhile_stop document.labelWord other
      (document.trailing ++ (document.lineEnd ++ rest))

/-- The blanks behind the label are left out. -/
theorem Document.trailed (rest : Text) :
    (document.trailing ++ (document.lineEnd ++ rest)).dropWhile isIndentation =
      document.lineEnd ++ rest := by
  obtain ⟨c, more, lineEnd, other, -⟩ := document.lineEnd_cons
  rw [lineEnd]
  exact Text.dropWhile_stop document.trailingBlank other (more ++ rest)

/-- The opening of a document tells its label and where its body begins. -/
theorem opening?_document (c : CodePoint) (rest : Text) :
    opening? (document.letter ++ (Text.ofString "<<<" ++ (document.leading ++ (document.quote ++
      (document.label ++ (document.quote ++ (document.trailing ++
        (document.lineEnd ++ c :: rest)))))))) = some (document.label, c :: rest) := by
  have marks := withoutLetter_document document
  have filled : document.label.isEmpty = false := by simp [document.labelFilled]
  have starts (tail : Text) : Text.startsWith (Text.ofString "<<<")
      (Text.ofString "<<<" ++ tail) = true := by simp [Text.startsWith]
  have three (tail : Text) : (Text.ofString "<<<" ++ tail).drop 3 = tail := rfl
  have after (tail : Text) : (document.quote ++ (document.label ++ tail)).drop
      (document.quote.length + document.label.length) = tail := by
    rw [← List.append_assoc, ← List.length_append, List.drop_left]
  have closed (tail : Text) : Text.startsWith document.quote (document.quote ++ tail) = true := by
    simp [Text.startsWith]
  simp only [withoutLetter] at marks
  simp only [opening?, marks, starts, three, document.skipped, document.quoted, List.drop_left,
    document.labelled, after, closed, document.trailed, filled, Bool.not_true, Bool.or_self,
    Bool.false_eq_true, if_false]
  have known := document.lineEndKnown
  simp only [List.mem_cons, List.not_mem_nil, or_false] at known
  rcases known with is | is <;> rw [is] <;> rfl

/-- A line without its indentation is its content. -/
theorem dedent_written {line : DocumentLine} {indentation : Text} :
    dedent indentation (line.written indentation) = line.content := by
  cases line with
  | indented content => simp [dedent, DocumentLine.written, DocumentLine.content, Text.startsWith]
  | bare =>
      rw [DocumentLine.written, dedent]
      split <;> simp [DocumentLine.content]

/-- The rows of a document have no newlines. -/
theorem Document.rows_whole : ∀ row ∈ document.rows, ∀ c ∈ row, isNewline c = false := by
  have indented (c : CodePoint) (member : c ∈ document.indentation) : isNewline c = false :=
    isNewline_indentation (document.indentationBlank c member)
  intro row member c inside
  rcases List.mem_append.mp member with written | closing
  · obtain ⟨line, own, rfl⟩ := List.mem_map.mp written
    cases line with
    | indented content =>
        rcases List.mem_append.mp inside with blank | further
        · exact indented c blank
        · exact document.noNewline _ own c further
    | bare => cases inside
  · obtain rfl := List.mem_singleton.mp closing
    rcases List.mem_append.mp inside with blank | label
    · exact indented c blank
    · exact isNewline_word (document.labelWord c label)

/-- The body of a document does not end in a carriage return. -/
theorem dropReturn_body : dropReturn document.body = document.body := by
  rw [dropReturn, if_neg]
  change ¬ Text.endsWith [.ofChar '\r'] document.body = true
  rw [Text.endsWith_singleton, beq_iff_eq]
  intro ends
  obtain ⟨last, isLast, returned⟩ := Text.join_getLast? (by decide) ends
  rw [List.getLast?_map] at isLast
  obtain ⟨line, isLine, rfl⟩ := Option.mem_map.mp isLast
  exact document.noReturn line isLine returned

/-- The body of a document is its lines as they are behind the indentation. -/
theorem documentBody?_text : documentBody? document.text = some document.body := by
  obtain ⟨first, others, label, word⟩ := document.label_cons
  have noBlank := isIndentation_word word
  have skipped : (document.indentation ++ document.label).dropWhile isIndentation =
      document.label := by
    rw [label]
    exact Text.dropWhile_stop document.indentationBlank noBlank others
  have indentation : (document.indentation ++ document.label).takeWhile isIndentation =
      document.indentation := by
    rw [label]
    exact Text.takeWhile_stop document.indentationBlank noBlank others
  have rows : splitWhere isNewline (join "\n" document.rows) = document.rows :=
    Text.splitWhere_join (by decide) (by simp [Document.rows]) document.rows_whole
  have closing : document.rows.getLast? = some (document.indentation ++ document.label) := by
    simp [Document.rows]
  have opening : opening? document.text = some (document.label, join "\n" document.rows) := by
    cases is : join "\n" document.rows with
    | nil =>
        rw [is] at rows
        rw [← rows, label] at closing
        simp [splitWhere] at closing
    | cons c rest =>
        simp only [Document.text, is, List.append_assoc]
        exact opening?_document document c rest
  have body : join "\n" (document.rows.dropLast.map (dedent document.indentation)) =
      document.body := by
    rw [Document.rows, List.dropLast_concat, List.map_map]
    exact congrArg (join "\n") (List.map_congr_left fun line _ => dedent_written)
  have labelled : Text.startsWith document.label document.label = true := by
    simp [Text.startsWith]
  simp only [documentBody?, opening, rows, closing, skipped, indentation, body, labelled,
    dropReturn_body, Option.bind_eq_bind, Option.bind_some]
  rfl

end

/-- What is written as a document is read as its body. The value of a nowdoc is the body, and that
of a heredoc is the body with its escapes decoded. -/
theorem document_value (document : Document) :
    documentBody? document.text = some document.body ∧
      ∀ (source : List Char) (node : Node), node.text source = document.text →
        (node.kind = .nowdoc → value? source node = .ok (some document.body)) ∧
          (node.kind = .heredoc →
            value? source node = (unescapeDouble false document.body).map some) := by
  have body := documentBody?_text document
  refine ⟨body, fun source node written => ?_⟩
  rw [← written] at body
  constructor
  · intro nowdoc
    unfold value?
    simp only [nowdoc, body]
  · intro heredoc
    unfold value?
    simp only [heredoc, body]

/-- A document with tabs and blanks in front, an empty line without them and an escape. -/
def indentedDocument (quote : Text)
    (known : quote ∈ [Text.ofString "", Text.ofString "'", Text.ofString "\""]) : Document where
  letter := "b"
  leading := " "
  quote := quote
  label := "A1"
  trailing := ""
  lineEnd := "\n"
  lines := [.indented " \tA10 \\x41", .bare, .indented "$"]
  indentation := "\t "
  letterKnown := by decide
  quoteKnown := known
  lineEndKnown := by decide
  labelFilled := by decide
  labelWord := by decide +kernel
  leadingBlank := by decide
  trailingBlank := by decide
  indentationBlank := by decide
  noNewline := by decide
  noReturn := by decide

/-- The document as a nowdoc and as a heredoc. -/
def documentPair : List Char :=
  ("<?php [b<<< 'A1'\n\t  \tA10 \\x41\n\n\t $\n\t A1, " ++
    "b<<< A1\n\t  \tA10 \\x41\n\n\t $\n\t A1];").toList

/-- Both forms of the document are read to what is written between their lines. -/
theorem document_value_pair :
    ∃ program nowdoc heredoc, Php.parse documentPair none = .ok program ∧
      nowdoc ∈ program.root.nodes ∧ nowdoc.kind = .nowdoc ∧
      nowdoc.text documentPair = (indentedDocument "'" (by decide)).text ∧
      value? documentPair nowdoc = .ok (some (Text.ofString " \tA10 \\x41\n\n$")) ∧
      heredoc ∈ program.root.nodes ∧ heredoc.kind = .heredoc ∧
      heredoc.text documentPair = (indentedDocument "" (by decide)).text ∧
      value? documentPair heredoc = .ok (some (Text.ofString " \tA10 A\n\n$")) := by
  have reads : (Php.parse documentPair none).toOption.map (fun program =>
      ((program.root.nodes.find? (·.kind == .nowdoc)).map (·.text documentPair),
        (program.root.nodes.find? (·.kind == .heredoc)).map (·.text documentPair))) =
      some (some (indentedDocument "'" (by decide)).text,
        some (indentedDocument "" (by decide)).text) := by
    decide +kernel
  obtain ⟨program, valid, reads⟩ := ok_of_toOption reads
  obtain ⟨first, second⟩ := Prod.mk.inj reads
  obtain ⟨nowdoc, found, written⟩ := Option.map_eq_some_iff.mp first
  obtain ⟨heredoc, foundNext, writtenNext⟩ := Option.map_eq_some_iff.mp second
  have isNowdoc : nowdoc.kind = .nowdoc := by simpa using List.find?_some found
  have isHeredoc : heredoc.kind = .heredoc := by simpa using List.find?_some foundNext
  refine ⟨program, nowdoc, heredoc, valid, List.mem_of_find?_eq_some found, isNowdoc, written, ?_,
    List.mem_of_find?_eq_some foundNext, isHeredoc, writtenNext, ?_⟩
  · exact ((document_value _).2 _ _ written).1 isNowdoc
  · rw [((document_value _).2 _ _ writtenNext).2 isHeredoc]
    decide +kernel

end Untranslated.Php.Literal
