/-
This file proves that use declarations bind what they say.
A declaration that begins with a name that is taken for a keyword binds nothing.
-/

import Untranslated.Proofs.Php.Escapes
import Untranslated.Proofs.Php.Import.Clauses

namespace Untranslated.Php

open Text (isBlank isWord join splitAtChar strip trimEnd words)

/-- A use declaration lists clauses, perhaps as a group behind the start of their names. Only in a
group without a kind clauses have kinds of their own. -/
structure ImportDeclaration where
  keyword : Keyword "use"
  gap : Gap
  kind : Option WrittenKind
  start : Option ImportName
  clauses : List WrittenClause
  closing : Blanks
  filled : clauses ≠ []
  ownInGroups : ∀ clause ∈ clauses, clause.own ≠ none → kind = none ∧ start ≠ none

/-- The clauses with commas between them. -/
def ImportDeclaration.list (declaration : ImportDeclaration) : Text :=
  join "," (declaration.clauses.map WrittenClause.text)

/-- What follows the kind of a declaration. -/
def ImportDeclaration.body (declaration : ImportDeclaration) : Text :=
  match declaration.start with
  | none => declaration.list ++ ";"
  | some start =>
    start.text ++ (Text.ofString "\\\x7b" ++ (declaration.list ++ (Text.ofString "\x7d" ++
      (declaration.closing.val ++ ";"))))

/-- A declaration as it is written. -/
def ImportDeclaration.text (declaration : ImportDeclaration) : Text :=
  declaration.keyword.val ++ (declaration.gap.val ++
    (kindText declaration.kind ++ declaration.body))

/-- The kind of the clauses that tell none of their own. -/
def ImportDeclaration.common (declaration : ImportDeclaration) : ImportKind :=
  match declaration.kind with
  | none => .classLike
  | some written => written.kind

/-- The aliases that are bound in small letters, with the last segments of their names. -/
def ImportDeclaration.bindings (kind : ImportKind) (declaration : ImportDeclaration) :
    List (Text × Text) :=
  (declaration.clauses.filter (·.kind declaration.common = kind)).map fun clause =>
    (Text.lower clause.boundWord, clause.name.last.val)

/-- The first clause of a plain list is taken for the kind of the declaration. -/
def ImportDeclaration.isMistaken (declaration : ImportDeclaration) : Bool :=
  declaration.kind.isNone && declaration.start.isNone &&
    declaration.clauses.head?.any WrittenClause.isMistaken

/-- The imports in what follows the kind of a declaration. -/
def importsIn (kind : ImportKind) (rest : Text) : List Import :=
  let body := withoutSemicolon rest
  let (start, inside) :=
    match group? (strip body) with
    | some (start, inside) => (if start.isEmpty then [] else start ++ Text.ofString "\\", inside)
    | none => ([], body)
  (splitAtChar ',' inside).filterMap fun part => clause? kind start (words part)

/-- The imports of a declaration are those behind its keyword and its kind. -/
theorem importsOf_use {declaration rest : Text}
    (told : afterKeyword? "use" (declaration.dropWhile isBlank) = some rest) :
    importsOf declaration = importsIn (declarationKind rest).1 (declarationKind rest).2 := by
  cases group : group? (strip (withoutSemicolon (declarationKind rest).2)) <;>
    simp only [importsOf, importsIn, told, group]

/-- The semicolon is dropped with the blanks in front of it. -/
theorem withoutSemicolon_append (t : Text) :
    withoutSemicolon (t ++ Text.ofString ";") = trimEnd isBlank t := by
  have semicolon : isBlank (.ofChar ';') = false := by decide
  have whole : trimEnd isBlank (t ++ Text.ofString ";") = t ++ Text.ofString ";" := by
    have ends : trimEnd isBlank ((t ++ [.ofChar ';']) ++ []) = t ++ [.ofChar ';'] :=
      Text.trimEnd_append (by simp) (by simp [semicolon])
    rwa [List.append_nil] at ends
  have closes : Text.endsWith (Text.ofString ";") (t ++ Text.ofString ";") = true := by
    change Text.endsWith [.ofChar ';'] (t ++ [.ofChar ';']) = true
    rw [Text.endsWith_singleton]
    simp
  have front : (t ++ Text.ofString ";").dropLast = t := List.dropLast_concat
  simp only [withoutSemicolon, whole, closes, front, if_true]

/-- A text without a brace is no group. -/
theorem group?_none {t : Text} (open_ : ∀ c ∈ t, c.is '\x7b' = false) : group? t = none := by
  rw [group?]
  split
  · next c d rest is =>
    have inside : c ∈ t := List.mem_of_mem_drop (is ▸ List.mem_cons_self)
    rw [open_ c inside]
    rfl
  · rfl

/-- A group has a start and the clauses between its braces. -/
theorem group?_braces {start : Text} (names : ∀ c ∈ start, isNameCharacter c = true)
    (inside : Text) : group? (start ++ .ofChar '\x7b' :: (inside ++ Text.ofString "\x7d")) =
      some (trimEnd isBackslash start, inside) := by
  have other : isNameCharacter (.ofChar '\x7b') = false := isNameCharacter_mark (by decide)
  have last : (inside ++ Text.ofString "\x7d").getLast? = some (.ofChar '\x7d') :=
    List.getLast?_concat
  have front : (inside ++ Text.ofString "\x7d").dropLast = inside := List.dropLast_concat
  rw [group?, Text.takeWhile_stop names other, List.drop_left]
  obtain ⟨d, rest, is⟩ : ∃ d rest, inside ++ Text.ofString "\x7d" = d :: rest := by
    cases inside with
    | nil => exact ⟨_, _, rfl⟩
    | cons d rest => exact ⟨_, _, rfl⟩
  rw [is] at last front ⊢
  simp [last, front]

/-- Clauses with commas between them are split into the clauses. -/
theorem splitAtChar_join {pieces : List Text} (filled : pieces ≠ [])
    (plain : ∀ piece ∈ pieces, ∀ c ∈ piece, isClauseCharacter c = true) :
    splitAtChar ',' (join "," pieces) = pieces := by
  refine Text.splitWhere_join (by decide) filled fun piece member c inside => ?_
  have other : isClauseCharacter (.ofChar ',') = false := isClauseCharacter_mark (by decide)
  rw [beq_eq_false_iff_ne]
  rintro rfl
  rw [plain piece member _ inside] at other
  cases other

/-- The words of the clauses are read one clause after the other. -/
theorem filterMap_words (kind : ImportKind) (start : Text) (pieces : List Text) :
    (pieces.filterMap fun part => clause? kind start (words part)) =
      (pieces.map words).filterMap (clause? kind start) := by
  rw [List.filterMap_map]
  rfl

/-- A list imports what its clauses import. -/
theorem importsIn_list {kind : ImportKind} {pieces : List Text} (filled : pieces ≠ [])
    (plain : ∀ piece ∈ pieces, ∀ c ∈ piece, isClauseCharacter c = true) :
    importsIn kind ((join "," pieces ++ Text.ofString ";").dropWhile isBlank) =
      (pieces.map words).filterMap (clause? kind []) := by
  have semicolon : isBlank (.ofChar ';') = false := by decide
  have dropped : (join "," pieces ++ Text.ofString ";").dropWhile isBlank =
      (join "," pieces).dropWhile isBlank ++ Text.ofString ";" := Text.dropWhile_snoc semicolon _
  have body : withoutSemicolon ((join "," pieces ++ Text.ofString ";").dropWhile isBlank) =
      strip (join "," pieces) := by
    rw [dropped, withoutSemicolon_append]
    rfl
  have noGroup : group? (strip (strip (join "," pieces))) = none := by
    refine group?_none fun c member => ?_
    rcases Text.mem_join (Text.mem_strip (Text.mem_strip member)) with comma | ⟨piece, inside, own⟩
    · obtain rfl := List.mem_singleton.mp comma
      decide
    · exact Literal.is_other (plain piece inside c own) (isClauseCharacter_mark (by decide))
  have comma : ∀ c, isBlank c = true → (c == CodePoint.ofChar ',') = false := by
    intro c blank
    rw [beq_eq_false_iff_ne]
    rintro rfl
    exact absurd blank (by decide)
  simp only [importsIn, body, noGroup]
  rw [filterMap_words, splitAtChar, Text.splitWhere_words_strip comma]
  exact congrArg (fun pieces => (pieces.map words).filterMap (clause? kind []))
    (splitAtChar_join filled plain)

/-- A group imports what its clauses import behind its start. -/
theorem importsIn_group {kind : ImportKind} (start : ImportName) (closing : Blanks)
    {pieces : List Text} (filled : pieces ≠ [])
    (plain : ∀ piece ∈ pieces, ∀ c ∈ piece, isClauseCharacter c = true) :
    importsIn kind (start.text ++ (Text.ofString "\\\x7b" ++ (join "," pieces ++
      (Text.ofString "\x7d" ++ (closing.val ++ Text.ofString ";"))))) =
      (pieces.map words).filterMap (clause? kind (start.text ++ Text.ofString "\\")) := by
  obtain ⟨group, is⟩ : ∃ group, group = start.text ++ Text.ofString "\\" ++
      .ofChar '\x7b' :: (join "," pieces ++ Text.ofString "\x7d") := ⟨_, rfl⟩
  have written : start.text ++ (Text.ofString "\\\x7b" ++ (join "," pieces ++
      (Text.ofString "\x7d" ++ (closing.val ++ Text.ofString ";")))) =
        group ++ closing.val ++ Text.ofString ";" := by
    rw [is]
    simp [Text.ofString, Text.ofChars]
  have last : ∀ c ∈ group.getLast?, isBlank c = false := by
    have closed : group = start.text ++ Text.ofString "\\" ++
        .ofChar '\x7b' :: join "," pieces ++ [.ofChar '\x7d'] := by
      rw [is]
      simp [Text.ofString, Text.ofChars]
    rw [closed, List.getLast?_concat]
    rintro c ⟨⟩
    decide
  have head : ∀ c ∈ group.head?, isBlank c = false := by
    obtain ⟨c, rest, text⟩ := List.exists_cons_of_ne_nil start.text_filled
    rw [is, text]
    rintro d ⟨⟩
    exact start.text_solid c (text ▸ List.mem_cons_self)
  have names : ∀ c ∈ start.text ++ Text.ofString "\\", isNameCharacter c = true := by
    intro c member
    rcases List.mem_append.mp member with own | backslash
    · exact start.text_nameCharacter c own
    · obtain rfl := List.mem_singleton.mp backslash
      exact isNameCharacter_backslash
  have body : withoutSemicolon (group ++ closing.val ++ Text.ofString ";") = group := by
    rw [withoutSemicolon_append, Text.trimEnd_append closing.property last]
  have trimmed : trimEnd isBackslash (start.text ++ Text.ofString "\\") = start.text :=
    Text.trimEnd_append (by decide) start.text_last
  have parts : group? (strip group) = some (start.text, join "," pieces) := by
    rw [Text.strip_ends head last, is, group?_braces names, trimmed]
  have started : start.text.isEmpty = false := List.isEmpty_eq_false_iff.mpr start.text_filled
  rw [written]
  simp only [importsIn, body, parts, started, Bool.false_eq_true, if_false]
  rw [filterMap_words, splitAtChar_join filled plain]

/-- The kind of a declaration that begins with a word. -/
theorem declarationKind_word {word : Text} (whole : ∀ c ∈ word, isWord c = true)
    {stop : CodePoint} (ends : isWord stop = false) (rest : Text) :
    declarationKind (word ++ stop :: rest) =
      if (matchesKeyword "function" word || matchesKeyword "const" word) && isBlank stop then
        (keywordKind word, (stop :: rest).dropWhile isBlank)
      else (.classLike, word ++ stop :: rest) := by
  have front {keyword : String} (is : matchesKeyword keyword word = true) :
      (word ++ stop :: rest).take keyword.length = word := by
    rw [← matchesKeyword_length is, List.take_left]
  rw [declarationKind, afterKeyword?_word (by decide) whole ends,
    afterKeyword?_word (by decide) whole ends]
  cases blank : isBlank stop with
  | false => simp
  | true =>
      cases function : matchesKeyword "function" word with
      | true => simp [front function]
      | false =>
          cases const : matchesKeyword "const" word with
          | true => simp [front const]
          | false => simp

/-- A declaration with a kind is of this kind. -/
theorem WrittenKind.declarationKind_text (written : WrittenKind) (rest : Text) :
    declarationKind (written.text ++ rest) = (written.kind, rest.dropWhile isBlank) := by
  obtain ⟨stop, more, gap⟩ := List.exists_cons_of_ne_nil written.gap.property.1
  have blank : isBlank stop = true := written.gap.property.2 stop (gap ▸ List.mem_cons_self)
  have found := written.importKind?_keyword
  unfold importKind? at found
  split at found
  · next is =>
    have kind : keywordKind written.keyword = written.kind := Option.some.inj found
    have behind : (stop :: (more ++ rest)).dropWhile isBlank = rest.dropWhile isBlank := by
      rw [← List.cons_append, ← gap, List.dropWhile_append_of_pos written.gap.property.2]
    rw [WrittenKind.text, List.append_assoc, gap, List.cons_append,
      declarationKind_word written.keyword_word (Text.isWord_of_blank blank), is, blank, kind,
      behind]
    rfl
  · cases found

/-- A name ends in a word that is taken for a keyword just when it looks like one. -/
theorem ImportName.lookalike (name : ImportName) :
    (matchesKeyword "function" name.last.val || matchesKeyword "const" name.last.val) =
      lookalikes.contains name.last.val.small := by
  obtain ⟨noFunction, noConst⟩ := name.noKeyword name.last (by simp)
  rw [Bool.eq_iff_iff, Bool.or_eq_true, matchesKeyword_function, matchesKeyword_const,
    List.contains_iff_mem]
  simp [lookalikes, noFunction, noConst, or_assoc]

/-- A clause tells no kind, unless its name is mistaken for one. -/
theorem declarationKind_clause (clause : WrittenClause) {mark : Char}
    (plain : isWord (.ofChar mark) = false) (solid : isBlank (.ofChar mark) = false)
    (rest : Text) :
    declarationKind (clause.name.text ++ (clause.ending ++ .ofChar mark :: rest)) =
      if clause.isMistaken then
        (.constant, (clause.ending ++ .ofChar mark :: rest).dropWhile isBlank)
      else (.classLike, clause.name.text ++ (clause.ending ++ .ofChar mark :: rest)) := by
  rcases clause.name.begins (clause.ending ++ .ofChar mark :: rest) with
    ⟨rooted, front, text⟩ | ⟨several, word, others, text, whole⟩
  · have mistaken : clause.isMistaken = (lookalikes.contains clause.name.last.val.small &&
        (clause.bound.isSome || !clause.after.val.isEmpty)) := by
      simp [WrittenClause.isMistaken, rooted, front]
    rw [mistaken, text, ← clause.name.lookalike]
    rcases clause.ending_cases with ⟨ending, noEnding⟩ | ⟨c, more, ending, blank, someEnding⟩
    · rw [ending, noEnding, List.nil_append, declarationKind_word clause.name.last.property.2 plain,
        solid, Bool.and_false]
      rfl
    · rw [ending, someEnding, Bool.and_true, List.cons_append,
        declarationKind_word clause.name.last.property.2 (Text.isWord_of_blank blank), blank,
        Bool.and_true]
      split
      · next found =>
        rw [clause.name.lookalike, List.contains_iff_mem] at found
        rw [keywordKind_lookalike found]
      · rfl
  · have backslash : isBlank (.ofChar '\\') = false := by decide
    have mistaken : clause.isMistaken = false := by
      rw [WrittenClause.isMistaken, several]
      rfl
    rw [mistaken, text, declarationKind_word whole (Text.isWord_mark (by decide)), backslash,
      Bool.and_false]
    rfl

/-- No clause has a comma or a bracket. -/
theorem clauses_plain (clauses : List WrittenClause) :
    ∀ piece ∈ clauses.map WrittenClause.text, ∀ c ∈ piece, isClauseCharacter c = true := by
  intro piece member
  obtain ⟨clause, -, rfl⟩ := List.mem_map.mp member
  exact clause.text_plain

section

variable (declaration : ImportDeclaration)

/-- What stands in front of the names of a group. -/
def ImportDeclaration.startText : Text :=
  match declaration.start with
  | none => []
  | some start => start.text ++ Text.ofString "\\"

/-- The start of a group ends in a backslash. -/
theorem ImportDeclaration.startText_ends :
    declaration.startText = [] ∨
      ∃ before, declaration.startText = before ++ Text.ofString "\\" := by
  rw [startText]
  cases declaration.start with
  | none => exact .inl rfl
  | some start => exact .inr ⟨start.text, rfl⟩

/-- The start of a group has no blanks. -/
theorem ImportDeclaration.startText_solid :
    ∀ c ∈ declaration.startText, isBlank c = false := by
  intro c member
  rw [startText] at member
  cases is : declaration.start with
  | none =>
      rw [is] at member
      cases member
  | some start =>
      rw [is] at member
      rcases List.mem_append.mp member with own | backslash
      · exact start.text_solid c own
      · obtain rfl := List.mem_singleton.mp backslash
        decide

/-- The body of a declaration imports what its clauses say. -/
theorem ImportDeclaration.importsIn_body (kind : ImportKind) :
    importsIn kind (declaration.body.dropWhile isBlank) =
      declaration.clauses.map fun clause => clause.imported kind declaration.startText := by
  have filled : declaration.clauses.map WrittenClause.text ≠ [] := by simp [declaration.filled]
  have told (clause : WrittenClause) : clause? kind declaration.startText (words clause.text) =
      some (clause.imported kind declaration.startText) := by
    rw [clause.words_text, clause.clause?_words declaration.startText_ends
      declaration.startText_solid]
  have clauses : ((declaration.clauses.map WrittenClause.text).map words).filterMap
      (clause? kind declaration.startText) =
        declaration.clauses.map fun clause => clause.imported kind declaration.startText := by
    rw [List.map_map, List.filterMap_map, ← List.filterMap_eq_map]
    exact congrArg (declaration.clauses.filterMap ·) (funext told)
  rw [← clauses, body, startText]
  cases declaration.start with
  | none => exact importsIn_list filled (clauses_plain _)
  | some start =>
      change importsIn kind (List.dropWhile isBlank (start.text ++ _)) = _
      rw [start.dropWhile_blank]
      exact importsIn_group start declaration.closing filled (clauses_plain _)

/-- What follows the keyword of a declaration. -/
theorem ImportDeclaration.afterKeyword?_text :
    afterKeyword? "use" (declaration.text.dropWhile isBlank) =
      some ((kindText declaration.kind ++ declaration.body).dropWhile isBlank) := by
  have whole := isWord_keyword (by decide) declaration.keyword
  have filled := filled_keyword (by decide) declaration.keyword
  obtain ⟨stop, more, gap⟩ := List.exists_cons_of_ne_nil declaration.gap.property.1
  have blank : isBlank stop = true := declaration.gap.property.2 stop (gap ▸ List.mem_cons_self)
  have stays : declaration.text.dropWhile isBlank = declaration.text :=
    Text.dropWhile_front filled (fun c member => Text.isBlank_of_word (whole c member)) _
  have is : matchesKeyword "use" declaration.keyword.val = true :=
    matchesKeyword_self (by decide) declaration.keyword.property
  rw [stays, text, gap, List.cons_append, afterKeyword?_word (by decide) whole
    (Text.isWord_of_blank blank), is, blank, ← List.cons_append, ← gap,
    List.dropWhile_append_of_pos declaration.gap.property.2]
  rfl

/-- The imports of a declaration are those behind the kind that it tells. -/
theorem ImportDeclaration.importsOf_text {kind : ImportKind} {rest : Text}
    (told : declarationKind ((kindText declaration.kind ++ declaration.body).dropWhile isBlank) =
      (kind, rest)) : importsOf declaration.text = importsIn kind rest := by
  rw [importsOf_use declaration.afterKeyword?_text, told]

/-- The same for a declaration without a kind. -/
theorem ImportDeclaration.importsOf_body (noKind : declaration.kind = none) {kind : ImportKind}
    {rest : Text} (told : declarationKind (declaration.body.dropWhile isBlank) = (kind, rest)) :
    importsOf declaration.text = importsIn kind rest := by
  refine declaration.importsOf_text ?_
  rw [noKind]
  exact told

/-- A declaration with a kind imports what its clauses say. -/
theorem ImportDeclaration.importsOf_kind {written : WrittenKind}
    (is : declaration.kind = some written) :
    importsOf declaration.text =
      declaration.clauses.map fun clause => clause.imported written.kind declaration.startText := by
  have stays : (written.text ++ declaration.body).dropWhile isBlank =
      written.text ++ declaration.body := by
    rw [WrittenKind.text, List.append_assoc]
    exact Text.dropWhile_front written.keyword_filled
      (fun c member => Text.isBlank_of_word (written.keyword_word c member)) _
  have told : declarationKind ((kindText declaration.kind ++ declaration.body).dropWhile isBlank) =
      (written.kind, declaration.body.dropWhile isBlank) := by
    rw [is, kindText, stays, written.declarationKind_text]
  rw [declaration.importsOf_text told, importsIn_body]

/-- The start of a group tells no kind. -/
theorem ImportName.declarationKind_text (name : ImportName) (rest : Text) :
    declarationKind (name.text ++ .ofChar '\\' :: rest) =
      (.classLike, name.text ++ .ofChar '\\' :: rest) := by
  have backslash : isBlank (.ofChar '\\') = false := by decide
  rcases name.begins (.ofChar '\\' :: rest) with ⟨-, -, text⟩ | ⟨-, word, others, text, whole⟩
  · rw [text, declarationKind_word name.last.property.2 (Text.isWord_mark (by decide)), backslash,
      Bool.and_false]
    rfl
  · rw [text, declarationKind_word whole (Text.isWord_mark (by decide)), backslash,
      Bool.and_false]
    rfl

/-- A group without a kind imports what its clauses say. -/
theorem ImportDeclaration.importsOf_group {start : ImportName} (noKind : declaration.kind = none)
    (is : declaration.start = some start) :
    importsOf declaration.text =
      declaration.clauses.map fun clause => clause.imported .classLike declaration.startText := by
  obtain ⟨rest, body⟩ : ∃ rest, declaration.body = start.text ++ .ofChar '\\' :: rest := by
    rw [ImportDeclaration.body, is]
    exact ⟨_, rfl⟩
  have stays : declaration.body.dropWhile isBlank = declaration.body := by
    rw [body, start.dropWhile_blank]
  have told : declarationKind (declaration.body.dropWhile isBlank) =
      (.classLike, declaration.body.dropWhile isBlank) := by
    rw [stays, body, start.declarationKind_text]
  rw [declaration.importsOf_body noKind told, importsIn_body]

/-- Behind the first piece of a list is a comma or the semicolon. -/
theorem join_mark (front : Text) (pieces : List Text) : ∃ mark more,
    isWord (.ofChar mark) = false ∧ isBlank (.ofChar mark) = false ∧
      join "," (front :: pieces) ++ Text.ofString ";" = front ++ .ofChar mark :: more := by
  cases pieces with
  | nil => exact ⟨';', [], Text.isWord_mark (by decide), by decide, rfl⟩
  | cons second pieces =>
      refine ⟨',', join "," (second :: pieces) ++ Text.ofString ";",
        Text.isWord_mark (by decide), by decide, ?_⟩
      rw [join]
      · simp [Text.ofString, Text.ofChars]
      · simp

/-- A plain list begins with the name of its first clause. -/
theorem ImportDeclaration.body_list (noStart : declaration.start = none) :
    ∃ first others, declaration.clauses = first :: others ∧
      declaration.body.dropWhile isBlank = first.name.text ++
        (join "," (first.ending :: others.map WrittenClause.text) ++ Text.ofString ";") := by
  obtain ⟨first, others, clauses⟩ := List.exists_cons_of_ne_nil declaration.filled
  have noOwn : first.own = none := by
    by_contra own
    exact (declaration.ownInGroups first (clauses ▸ List.mem_cons_self) own).2 noStart
  have text : first.text = first.before.val ++ (first.name.text ++ first.ending) := by
    rw [WrittenClause.text, noOwn]
    rfl
  refine ⟨first, others, clauses, ?_⟩
  rw [body, noStart]
  change List.dropWhile isBlank (declaration.list ++ Text.ofString ";") = _
  rw [list, clauses, List.map_cons, text, Text.join_cons_append, Text.join_cons_append,
    List.append_assoc, List.append_assoc, List.dropWhile_append_of_pos first.before.property,
    first.name.dropWhile_blank]

/-- A list without a kind imports what its clauses say, if its first name is not mistaken. -/
theorem ImportDeclaration.importsOf_list (noKind : declaration.kind = none)
    (noStart : declaration.start = none) (plain : declaration.isMistaken = false) :
    importsOf declaration.text =
      declaration.clauses.map fun clause => clause.imported .classLike declaration.startText := by
  obtain ⟨first, others, clauses, body⟩ := declaration.body_list noStart
  obtain ⟨mark, more, noWord, solid, behind⟩ :=
    join_mark first.ending (others.map WrittenClause.text)
  have notMistaken : first.isMistaken = false := by
    simpa [isMistaken, noKind, noStart, clauses] using plain
  have told : declarationKind (declaration.body.dropWhile isBlank) =
      (.classLike, declaration.body.dropWhile isBlank) := by
    rw [body, behind, declarationKind_clause first noWord solid, notMistaken]
    rfl
  rw [declaration.importsOf_body noKind told, importsIn_body]

/-- Whatever a mistaken declaration imports, it is taken for a constant. -/
theorem ImportDeclaration.importsOf_mistaken (mistaken : declaration.isMistaken = true) :
    ∀ imported ∈ importsOf declaration.text, imported.kind = .constant := by
  simp only [isMistaken, Bool.and_eq_true, Option.isNone_iff_eq_none] at mistaken
  obtain ⟨⟨noKind, noStart⟩, mistaken⟩ := mistaken
  obtain ⟨first, others, clauses, body⟩ := declaration.body_list noStart
  obtain ⟨mark, more, noWord, solid, behind⟩ :=
    join_mark first.ending (others.map WrittenClause.text)
  have isMistaken : first.isMistaken = true := by simpa [clauses] using mistaken
  have told : declarationKind (declaration.body.dropWhile isBlank) =
      (.constant, (join "," (first.ending :: others.map WrittenClause.text) ++
        Text.ofString ";").dropWhile isBlank) := by
    rw [body, behind, declarationKind_clause first noWord solid, isMistaken]
    rfl
  have plain : ∀ piece ∈ first.ending :: others.map WrittenClause.text, ∀ c ∈ piece,
      isClauseCharacter c = true :=
    List.forall_mem_cons.mpr ⟨first.ending_plain, clauses_plain others⟩
  have imports : importsOf declaration.text =
      ((first.ending :: others.map WrittenClause.text).map words).filterMap
        (clause? .constant []) := by
    rw [declaration.importsOf_body noKind told, importsIn_list (List.cons_ne_nil _ _) plain]
  rw [imports]
  intro imported member
  obtain ⟨parts, inside, told⟩ := List.mem_filterMap.mp member
  obtain ⟨piece, own, rfl⟩ := List.mem_map.mp inside
  rcases List.mem_cons.mp own with rfl | later
  · have ending : words first.ending = first.endingWords := first.words_ending []
    rw [ending, first.clause?_endingWords] at told
    cases told
  · obtain ⟨clause, other, rfl⟩ := List.mem_map.mp later
    have noOwn : clause.own = none := by
      by_contra own
      have within : clause ∈ declaration.clauses := clauses ▸ List.mem_cons_of_mem first other
      exact (declaration.ownInGroups clause within own).2 noStart
    rw [clause.words_text, clause.clause?_words (.inl rfl) (by simp)] at told
    cases told
    rw [WrittenClause.imported, WrittenClause.kind, noOwn]

/-- The imports of a declaration that is not mistaken are its clauses. -/
theorem ImportDeclaration.importsOf_plain (plain : declaration.isMistaken = false) :
    importsOf declaration.text = declaration.clauses.map fun clause =>
      clause.imported declaration.common declaration.startText := by
  rw [common]
  cases kind : declaration.kind with
  | some written => exact declaration.importsOf_kind kind
  | none =>
      cases start : declaration.start with
      | some start => exact declaration.importsOf_group kind start
      | none => exact declaration.importsOf_list kind start plain

end

/-- The last name that a word is bound to. -/
def lastBound (word : Text) (bindings : List (Text × Text)) : Option Text :=
  (bindings.reverse.find? (·.1 = word)).map (·.2)

/-- A later binding of a word hides the earlier ones. -/
theorem lastBound_append (word : Text) (bindings : List (Text × Text)) (last : Text × Text) :
    lastBound word (bindings ++ [last]) =
      if last.1 = word then some last.2 else lastBound word bindings := by
  rw [lastBound, List.reverse_append, List.reverse_singleton, List.singleton_append,
    List.find?_cons]
  by_cases same : last.1 = word
  · simp [same]
  · simp [same, lastBound]

/-- A table finds the word that was bound last. -/
theorem AliasTable.lookup?_bind (table : AliasTable) (word name other : Text) :
    (table.bind word name).lookup? other =
      if word = other then some name else table.lookup? other := by
  rw [lookup?, bind, List.find?_cons]
  by_cases same : word = other
  · simp [same]
  · have kept : (table.filter (·.1 ≠ word)).find? (·.1 = other) = table.find? (·.1 = other) := by
      rw [List.find?_filter]
      congr 1
      funext pair
      by_cases is : pair.1 = other
      · simp [is, Ne.symm same]
      · simp [is]
    simp only [decide_eq_false same, if_neg same]
    exact congrArg (Option.map (·.2)) kept

/-- The bindings of one kind that imports tell. -/
def bindingsOf (kind : ImportKind) (imports : List Import) : List (Text × Text) :=
  (imports.filter (·.kind = kind)).map fun imported =>
    (Text.lower imported.bound, shortName imported.name)

/-- A table has the last binding of each alias. -/
theorem addAll_lookup? (imports : List Import) (word : Text) :
    (imports.foldl Aliases.add ⟨[], []⟩).classes.lookup? word =
        lastBound word (bindingsOf .classLike imports) ∧
      (imports.foldl Aliases.add ⟨[], []⟩).functions.lookup? word =
        lastBound word (bindingsOf .function imports) := by
  induction imports using List.reverseRecOn with
  | nil => exact ⟨rfl, rfl⟩
  | append_singleton imports last inductionHypothesis =>
      obtain ⟨classes, functions⟩ := inductionHypothesis
      have split (kind : ImportKind) : bindingsOf kind (imports ++ [last]) =
          bindingsOf kind imports ++ bindingsOf kind [last] := by
        simp [bindingsOf]
      rw [List.foldl_append, split, split]
      obtain ⟨kind, name, bound⟩ := last
      cases kind with
      | classLike =>
          have here : bindingsOf .classLike [⟨.classLike, name, bound⟩] =
              [(Text.lower bound, shortName name)] := rfl
          have noOther : bindingsOf .function [⟨.classLike, name, bound⟩] = [] := rfl
          rw [here, noOther, List.append_nil, lastBound_append, ← classes]
          exact ⟨AliasTable.lookup?_bind _ _ _ _, functions⟩
      | function =>
          have here : bindingsOf .function [⟨.function, name, bound⟩] =
              [(Text.lower bound, shortName name)] := rfl
          have noOther : bindingsOf .classLike [⟨.function, name, bound⟩] = [] := rfl
          rw [here, noOther, List.append_nil, lastBound_append, ← functions]
          exact ⟨classes, AliasTable.lookup?_bind _ _ _ _⟩
      | constant =>
          have noClass : bindingsOf .classLike [⟨.constant, name, bound⟩] = [] := rfl
          have noFunction : bindingsOf .function [⟨.constant, name, bound⟩] = [] := rfl
          rw [noClass, noFunction, List.append_nil, List.append_nil]
          exact ⟨classes, functions⟩

/-- A declaration binds its aliases, unless its first name is mistaken. -/
theorem ImportDeclaration.bindingsOf_text (declaration : ImportDeclaration) {kind : ImportKind}
    (binds : kind ≠ .constant) :
    bindingsOf kind (importsOf declaration.text) =
      if declaration.isMistaken then [] else declaration.bindings kind := by
  split
  · next mistaken =>
    have none : (importsOf declaration.text).filter (·.kind = kind) = [] := by
      refine List.filter_eq_nil_iff.mpr fun imported member => ?_
      rw [declaration.importsOf_mistaken mistaken imported member]
      simpa using binds.symm
    rw [bindingsOf, none]
    rfl
  · next plain =>
    rw [declaration.importsOf_plain (by simpa using plain), bindingsOf, bindings, List.filter_map,
      List.map_map]
    refine List.map_congr_left fun clause _ => ?_
    have last := clause.name.shortName_bare declaration.startText_ends declaration.startText_solid
    simp [WrittenClause.imported, last]

/-- Mistaken declarations bind nothing. -/
theorem bindingsOf_declarations {kind : ImportKind} (binds : kind ≠ .constant)
    (declarations : List ImportDeclaration) :
    bindingsOf kind (declarations.flatMap (importsOf ·.text)) =
      (declarations.filter (!·.isMistaken)).flatMap (·.bindings kind) := by
  induction declarations with
  | nil => rfl
  | cons declaration others inductionHypothesis =>
      have split (first rest : List Import) :
          bindingsOf kind (first ++ rest) = bindingsOf kind first ++ bindingsOf kind rest := by
        simp [bindingsOf]
      rw [List.flatMap_cons, split, inductionHypothesis, declaration.bindingsOf_text binds]
      cases mistaken : declaration.isMistaken <;> simp [mistaken]

/-- The aliases of a program are what its use declarations bind. A later binding of an alias wins,
and a declaration that begins with a lookalike of a keyword binds nothing. -/
theorem aliases_written {program : Program} {declarations : List ImportDeclaration}
    (written : (program.root.nodes.filter (·.kind == .useDeclaration)).map
      (·.text program.source.written) = declarations.map ImportDeclaration.text) (word : Text) :
    program.aliases.classes.lookup? word = lastBound word
        ((declarations.filter (!·.isMistaken)).flatMap (·.bindings .classLike)) ∧
      program.aliases.functions.lookup? word = lastBound word
        ((declarations.filter (!·.isMistaken)).flatMap (·.bindings .function)) := by
  have imports : program.imports = declarations.flatMap (importsOf ·.text) := by
    rw [Program.imports, ← List.flatMap_map, written, List.flatMap_map]
  rw [Program.aliases, ← bindingsOf_declarations (by decide),
    ← bindingsOf_declarations (by decide), ← imports]
  exact addAll_lookup? program.imports word

/-- A single blank that has to stand there. -/
def space : Gap := ⟨" ", by decide⟩

/-- Nothing where blanks may stand. -/
def noBlanks : Blanks := ⟨"", by decide⟩

/-- A single word as a name. -/
def singleName (word : Word) (noKeyword : word.val.small ≠ Text.ofString "function" ∧
    word.val.small ≠ Text.ofString "const") : ImportName where
  rooted := false
  front := []
  last := word
  noKeyword := by simpa using noKeyword

/-- An alias behind its keyword. -/
def aliasAs (word : Word) : WrittenAlias := ⟨space, ⟨"as", by decide⟩, space, word⟩

/-- A group with clauses of several kinds. -/
def groupDeclaration : ImportDeclaration where
  keyword := ⟨"use", by decide⟩
  gap := space
  kind := none
  start := some ⟨false, [⟨"A", by decide +kernel⟩], ⟨"B", by decide +kernel⟩, by decide⟩
  clauses := [
    ⟨⟨" ", by decide⟩, some (.function ⟨"Function", by decide⟩ space),
      singleName ⟨"f", by decide +kernel⟩ (by decide),
      some (aliasAs ⟨"G", by decide +kernel⟩), ⟨"\n", by decide⟩⟩,
    ⟨noBlanks, none, singleName ⟨"C", by decide +kernel⟩ (by decide), none, noBlanks⟩,
    ⟨noBlanks, some (.constant ⟨"const", by decide⟩ space),
      singleName ⟨"D", by decide +kernel⟩ (by decide), none, ⟨" ", by decide⟩⟩]
  closing := noBlanks
  filled := by simp
  ownInGroups := by simp

/-- A list with a name that no blank follows, so that it is not mistaken. -/
def listDeclaration : ImportDeclaration where
  keyword := ⟨"USE", by decide⟩
  gap := ⟨"\t", by decide⟩
  kind := none
  start := none
  clauses := [
    ⟨noBlanks, none, singleName ⟨"con\u017ft", by decide +kernel⟩ (by decide), none, noBlanks⟩,
    ⟨⟨" ", by decide⟩, none,
      ⟨true, [⟨"X", by decide +kernel⟩], ⟨"Y", by decide +kernel⟩, by decide⟩,
      some (aliasAs ⟨"c", by decide +kernel⟩), ⟨" ", by decide⟩⟩]
  closing := noBlanks
  filled := by simp
  ownInGroups := by simp

/-- A file with both declarations. -/
def importingFile : List Char :=
  "<?php use A\\B\\\x7b Function f as G\n,C,const D \x7d;\nUSE\tcon\u017ft, \\X\\Y as c ;".toList

/-- The file binds the aliases of its two declarations. -/
theorem aliases_written_file :
    ∃ program, parse importingFile none = .ok program ∧
      (program.root.nodes.filter (·.kind == .useDeclaration)).map
        (·.text program.source.written) =
          [groupDeclaration, listDeclaration].map ImportDeclaration.text ∧
      program.aliases.classes.lookup? "c" = some (Text.ofString "Y") ∧
      program.aliases.classes.lookup? "con\u017ft" = some (Text.ofString "con\u017ft") ∧
      program.aliases.functions.lookup? "g" = some (Text.ofString "f") ∧
      program.aliases.classes.lookup? "d" = none := by
  have reads : (parse importingFile none).toOption.map (fun program =>
      (program.root.nodes.filter (·.kind == .useDeclaration)).map
        (·.text program.source.written)) =
      some ([groupDeclaration, listDeclaration].map ImportDeclaration.text) := by
    decide +kernel
  obtain ⟨program, valid, written⟩ := ok_of_toOption reads
  refine ⟨program, valid, written, ?_, ?_, ?_, ?_⟩
  · rw [(aliases_written written "c").1]
    decide +kernel
  · rw [(aliases_written written "con\u017ft").1]
    decide +kernel
  · rw [(aliases_written written "g").2]
    decide +kernel
  · rw [(aliases_written written "d").1]
    decide +kernel

/-- A list whose name is mistaken for the keyword of a constant. -/
def mistakenDeclaration : ImportDeclaration where
  keyword := ⟨"use", by decide⟩
  gap := space
  kind := none
  start := none
  clauses := [⟨noBlanks, none, singleName ⟨"con\u017ft", by decide +kernel⟩ (by decide),
    some (aliasAs ⟨"foo", by decide +kernel⟩), noBlanks⟩]
  closing := noBlanks
  filled := by simp
  ownInGroups := by simp

/-- A file with the mistaken declaration. -/
def mistakenFile : List Char := "<?php use con\u017ft as foo;".toList

/-- The declaration names an alias, and the file has none. -/
theorem aliases_written_mistaken :
    ∃ program, parse mistakenFile none = .ok program ∧
      (program.root.nodes.filter (·.kind == .useDeclaration)).map
        (·.text program.source.written) = [mistakenDeclaration].map ImportDeclaration.text ∧
      mistakenDeclaration.bindings .classLike =
        [(Text.ofString "foo", Text.ofString "con\u017ft")] ∧
      program.aliases.classes.lookup? "foo" = none := by
  have reads : (parse mistakenFile none).toOption.map (fun program =>
      ((program.root.nodes.filter (·.kind == .useDeclaration)).map
        (·.text program.source.written), program.aliases.classes.lookup? "foo")) =
      some ([mistakenDeclaration].map ImportDeclaration.text, none) := by
    decide +kernel
  obtain ⟨program, valid, reads⟩ := ok_of_toOption reads
  obtain ⟨written, unbound⟩ := Prod.mk.inj reads
  exact ⟨program, valid, written, by decide +kernel, unbound⟩

end Untranslated.Php
