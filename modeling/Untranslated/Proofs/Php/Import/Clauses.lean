/-
This file proves that the clauses of use declarations are read as they were written.
-/

import Untranslated.Proofs.Php.Import.Keywords

namespace Untranslated.Php

open Text (isBlank isWord join)

/-- Blanks that may stand between the parts of a declaration. -/
abbrev Blanks := {t : Text // ∀ c ∈ t, isBlank c = true}

/-- Blanks that have to stand between two words. -/
abbrev Gap := {t : Text // t ≠ [] ∧ ∀ c ∈ t, isBlank c = true}

/-- A segment of a name, or an alias. -/
abbrev Word := {t : Text // t ≠ [] ∧ ∀ c ∈ t, isWord c = true}

/-- A keyword in letters of any case. -/
abbrev Keyword (keyword : String) := {t : Text // t.small = Text.ofString keyword}

/-- A name has segments, and a backslash may stand in front of them. No segment is a keyword that
tells a kind. -/
structure ImportName where
  rooted : Bool
  front : List Word
  last : Word
  noKeyword : ∀ segment ∈ front ++ [last],
    segment.val.small ≠ Text.ofString "function" ∧ segment.val.small ≠ Text.ofString "const"

/-- A name without the backslash in front. -/
def ImportName.bare (name : ImportName) : Text :=
  join "\\" ((name.front ++ [name.last]).map Subtype.val)

/-- A name as it is written. -/
def ImportName.text (name : ImportName) : Text :=
  (if name.rooted then "\\" else "") ++ name.bare

/-- The keyword that tells a kind, and the blanks behind it. -/
inductive WrittenKind where
  | function (keyword : Keyword "function") (gap : Gap)
  | constant (keyword : Keyword "const") (gap : Gap)

/-- The keyword of a kind as it is written. -/
def WrittenKind.keyword : WrittenKind → Text
  | .function keyword _ => keyword.val
  | .constant keyword _ => keyword.val

/-- The blanks behind the keyword of a kind. -/
def WrittenKind.gap : WrittenKind → Gap
  | .function _ gap => gap
  | .constant _ gap => gap

/-- The kind that a keyword tells. -/
def WrittenKind.kind : WrittenKind → ImportKind
  | .function _ _ => .function
  | .constant _ _ => .constant

/-- A kind as it is written, with the blanks behind it. -/
def WrittenKind.text (written : WrittenKind) : Text := written.keyword ++ written.gap.val

/-- An alias between its keyword and what follows. -/
structure WrittenAlias where
  before : Gap
  keyword : Keyword "as"
  after : Gap
  word : Word

/-- An alias as it is written. -/
def WrittenAlias.text (written : WrittenAlias) : Text :=
  written.before.val ++ (written.keyword.val ++ (written.after.val ++ written.word.val))

/-- A clause and the blanks around it. -/
structure WrittenClause where
  before : Blanks
  own : Option WrittenKind
  name : ImportName
  bound : Option WrittenAlias
  after : Blanks

/-- A kind that may be left out. -/
def kindText : Option WrittenKind → Text
  | none => []
  | some written => written.text

/-- What follows the name of a clause. -/
def WrittenClause.ending (clause : WrittenClause) : Text :=
  (match clause.bound with
    | none => []
    | some written => written.text) ++ clause.after.val

/-- A clause as it is written. -/
def WrittenClause.text (clause : WrittenClause) : Text :=
  clause.before.val ++ (kindText clause.own ++ (clause.name.text ++ clause.ending))

/-- The alias of a clause, or the last segment of its name. -/
def WrittenClause.boundWord (clause : WrittenClause) : Text :=
  match clause.bound with
  | none => clause.name.last.val
  | some written => written.word.val

/-- A clause has its own kind, or that of its declaration. -/
def WrittenClause.kind (common : ImportKind) (clause : WrittenClause) : ImportKind :=
  match clause.own with
  | none => common
  | some written => written.kind

/-- The name of a clause is a single word that is taken for a keyword, for a blank is behind it. -/
def WrittenClause.isMistaken (clause : WrittenClause) : Bool :=
  !clause.name.rooted && clause.name.front.isEmpty &&
    lookalikes.contains clause.name.last.val.small &&
    (clause.bound.isSome || !clause.after.val.isEmpty)

/-- Keywords consist of word characters. -/
theorem isWord_keyword {keyword : String} (letters : IsKeyword keyword)
    (written : Keyword keyword) : ∀ c ∈ written.val, isWord c = true :=
  matchesKeyword_isWord letters (matchesKeyword_self letters written.property)

/-- Keywords are not empty. -/
theorem filled_keyword {keyword : String} (filled : Text.ofString keyword ≠ [])
    (written : Keyword keyword) : written.val ≠ [] := by
  intro empty
  have small := written.property
  rw [empty] at small
  exact filled small.symm

/-- No blank is in a name. -/
theorem isBlank_nameCharacter {c : CodePoint} (name : isNameCharacter c = true) :
    isBlank c = false := by
  rcases Bool.or_eq_true_iff.mp name with word | backslash
  · exact Text.isBlank_of_word word
  · rw [Literal.is_iff.mp backslash]
    decide

theorem isBackslash_word {c : CodePoint} (word : isWord c = true) : isBackslash c = false :=
  Literal.is_other word (Text.isWord_mark (by decide))

/-- The keyword of a kind consists of word characters. -/
theorem WrittenKind.keyword_word (written : WrittenKind) :
    ∀ c ∈ written.keyword, isWord c = true := by
  cases written with
  | function keyword gap => exact isWord_keyword (by decide) keyword
  | constant keyword gap => exact isWord_keyword (by decide) keyword

/-- The keyword of a kind is not empty. -/
theorem WrittenKind.keyword_filled (written : WrittenKind) : written.keyword ≠ [] := by
  cases written with
  | function keyword gap => exact filled_keyword (by decide) keyword
  | constant keyword gap => exact filled_keyword (by decide) keyword

theorem isNameCharacter_backslash : isNameCharacter (.ofChar '\\') = true :=
  Bool.or_eq_true_iff.mpr (.inr rfl)

/-- Clauses consist of names, keywords and blanks. -/
def isClauseCharacter (c : CodePoint) : Bool := isNameCharacter c || isBlank c

/-- Other marks are not in names. -/
theorem isNameCharacter_mark {mark : Char} (outside : mark.toNat < 128 ∧
    mark.isAlphanum = false ∧ mark ∉ ['_', '\\']) : isNameCharacter (.ofChar mark) = false := by
  obtain ⟨ascii, plain, other⟩ := outside
  simp only [List.mem_cons, List.not_mem_nil, or_false, not_or] at other
  rw [isNameCharacter, Text.isWord_mark ⟨ascii, plain, other.1⟩, isBackslash, Literal.is_ofChar]
  simp [other.2]

/-- Marks that are no blanks are not in clauses. -/
theorem isClauseCharacter_mark {mark : Char} (outside : (mark.toNat < 128 ∧
    mark.isAlphanum = false ∧ mark ∉ ['_', '\\']) ∧ isBlank (.ofChar mark) = false) :
    isClauseCharacter (.ofChar mark) = false := by
  rw [isClauseCharacter, isNameCharacter_mark outside.1, outside.2]
  rfl

/-- Clauses have the characters of names. -/
theorem isClauseCharacter_name {c : CodePoint} (name : isNameCharacter c = true) :
    isClauseCharacter c = true := by
  rw [isClauseCharacter, name]
  rfl

/-- Clauses have word characters. -/
theorem isClauseCharacter_word {c : CodePoint} (word : isWord c = true) :
    isClauseCharacter c = true :=
  isClauseCharacter_name (by rw [isNameCharacter, word]; rfl)

/-- Clauses have blanks. -/
theorem isClauseCharacter_blank {c : CodePoint} (blank : isBlank c = true) :
    isClauseCharacter c = true := by
  rw [isClauseCharacter, blank, Bool.or_true]

section

variable (name : ImportName)

/-- A name without its first backslash consists of the characters of names. -/
theorem ImportName.bare_nameCharacter : ∀ c ∈ name.bare, isNameCharacter c = true := by
  intro c member
  rcases Text.mem_join member with between | ⟨segment, inside, own⟩
  · obtain rfl := List.mem_singleton.mp between
    exact isNameCharacter_backslash
  · obtain ⟨word, -, rfl⟩ := List.mem_map.mp inside
    rw [isNameCharacter, word.property.2 c own]
    rfl

/-- A name consists of the characters of names. -/
theorem ImportName.text_nameCharacter : ∀ c ∈ name.text, isNameCharacter c = true := by
  intro c member
  rcases List.mem_append.mp member with root | own
  · split at root
    · obtain rfl := List.mem_singleton.mp root
      exact isNameCharacter_backslash
    · cases root
  · exact name.bare_nameCharacter c own

/-- A name without its first backslash begins with a word character. -/
theorem ImportName.bare_cons : ∃ c rest, name.bare = c :: rest ∧ isWord c = true := by
  obtain ⟨first, others, segments⟩ : ∃ first others,
      name.front ++ [name.last] = first :: others := by
    cases name.front with
    | nil => exact ⟨_, _, rfl⟩
    | cons first front => exact ⟨_, _, rfl⟩
  obtain ⟨c, rest, is⟩ := List.exists_cons_of_ne_nil first.property.1
  have word := first.property.2 c (is ▸ List.mem_cons_self)
  rw [bare, segments, List.map_cons]
  cases others with
  | nil => exact ⟨c, rest, is, word⟩
  | cons second others => exact ⟨c, _, by rw [List.map_cons, join, is]; rfl; simp, word⟩

/-- Only the backslash in front of a name is dropped. -/
theorem ImportName.dropWhile_backslash : name.text.dropWhile isBackslash = name.bare := by
  obtain ⟨c, rest, is, word⟩ := name.bare_cons
  have bare : name.bare.dropWhile isBackslash = name.bare := by
    rw [is, List.dropWhile_cons, isBackslash_word word]
    rfl
  rw [text]
  cases name.rooted with
  | false => exact bare
  | true => exact bare

/-- In front of the last segment is nothing or a backslash. -/
theorem ImportName.bare_last : ∃ front, name.bare = front ++ name.last.val ∧
    (front = [] ∨ ∃ before, front = before ++ Text.ofString "\\") := by
  refine ⟨(name.front.map Subtype.val).flatMap (· ++ Text.ofString "\\"), ?_, ?_⟩
  · rw [bare, List.map_append, List.map_singleton, Text.join_append_singleton]
  · rcases List.eq_nil_or_concat name.front with none | ⟨others, segment, some⟩
    · exact .inl (by rw [none]; rfl)
    · refine .inr ⟨(others.map Subtype.val).flatMap (· ++ Text.ofString "\\") ++ segment.val, ?_⟩
      rw [some]
      simp

/-- The last segment, whatever the name stands behind. -/
theorem ImportName.shortName_bare {start : Text}
    (ends : start = [] ∨ ∃ before, start = before ++ Text.ofString "\\")
    (solid : ∀ c ∈ start, isBlank c = false) :
    shortName (start ++ name.bare) = name.last.val := by
  have plain : ∀ c ∈ start ++ name.bare, isBlank c = false := by
    intro c member
    rcases List.mem_append.mp member with front | own
    · exact solid c front
    · exact isBlank_nameCharacter (name.bare_nameCharacter c own)
  have goes : ∀ c ∈ name.last.val.reverse, (!isBackslash c) = true := by
    intro c member
    rw [isBackslash_word (name.last.property.2 c (List.mem_reverse.mp member))]
    rfl
  obtain ⟨front, bare, endsFront⟩ := name.bare_last
  have whole : start ++ front = [] ∨ ∃ before, start ++ front = before ++ Text.ofString "\\" := by
    rcases endsFront with rfl | ⟨before, rfl⟩
    · rwa [List.append_nil]
    · exact .inr ⟨start ++ before, (List.append_assoc _ _ _).symm⟩
  have stops : (start ++ front).reverse.takeWhile (!isBackslash ·) = [] := by
    rcases whole with empty | ⟨before, filled⟩
    · rw [empty]
      rfl
    · rw [filled, List.reverse_append]
      rfl
  rw [shortName, Text.strip_solid plain, bare, ← List.append_assoc, List.reverse_append,
    List.takeWhile_append_of_pos goes, stops, List.append_nil, List.reverse_reverse]

end

/-- A name is a single word, or one with a backslash behind it, if not in front of it. -/
theorem ImportName.begins (name : ImportName) (more : Text) :
    (name.rooted = false ∧ name.front = [] ∧ name.text = name.last.val) ∨
      (!name.rooted && name.front.isEmpty) = false ∧ ∃ word rest,
        name.text ++ more = word ++ .ofChar '\\' :: rest ∧ ∀ c ∈ word, isWord c = true := by
  cases rooted : name.rooted with
  | true =>
      refine .inr ⟨rfl, [], name.bare ++ more, ?_, by simp⟩
      rw [ImportName.text, rooted]
      rfl
  | false =>
      have text : name.text = name.bare := by
        rw [ImportName.text, rooted]
        rfl
      cases front : name.front with
      | nil =>
          refine .inl ⟨rfl, rfl, ?_⟩
          rw [text, ImportName.bare, front]
          rfl
      | cons segment segments =>
          refine .inr ⟨rfl, segment.val,
            join "\\" ((segments ++ [name.last]).map Subtype.val) ++ more, ?_, segment.property.2⟩
          rw [text, ImportName.bare, front, List.cons_append, List.map_cons, join]
          · simp [Text.ofString, Text.ofChars]
          · simp

/-- A name does not end in a backslash. -/
theorem ImportName.text_last (name : ImportName) :
    ∀ c ∈ name.text.getLast?, isBackslash c = false := by
  obtain ⟨front, bare, -⟩ := name.bare_last
  obtain ⟨before, c, is⟩ := List.eq_nil_or_concat name.last.val |>.resolve_left name.last.property.1
  have word : isWord c = true := name.last.property.2 c (by simp [is])
  have last : name.text.getLast? = some c := by
    rw [ImportName.text, bare, is]
    simp
  rw [last]
  rintro d ⟨⟩
  exact isBackslash_word word

/-- A name is not empty. -/
theorem ImportName.text_filled (name : ImportName) : name.text ≠ [] := by
  obtain ⟨c, rest, bare, -⟩ := name.bare_cons
  rw [ImportName.text, bare]
  simp

theorem ImportName.text_solid (name : ImportName) : ∀ c ∈ name.text, isBlank c = false :=
  fun c member => isBlank_nameCharacter (name.text_nameCharacter c member)

/-- No blank is in front of a name. -/
theorem ImportName.dropWhile_blank (name : ImportName) (more : Text) :
    (name.text ++ more).dropWhile isBlank = name.text ++ more :=
  Text.dropWhile_front name.text_filled name.text_solid more

/-- The keyword of a kind tells that kind. -/
theorem WrittenKind.importKind?_keyword (written : WrittenKind) :
    importKind? written.keyword = some written.kind := by
  rw [← importKind?_small]
  cases written with
  | function keyword gap =>
      change importKind? keyword.val.small = some .function
      rw [keyword.property]
      decide +kernel
  | constant keyword gap =>
      change importKind? keyword.val.small = some .constant
      rw [keyword.property]
      decide +kernel

section

variable (clause : WrittenClause)

/-- The words behind the name. -/
def WrittenClause.endingWords : List Text :=
  match clause.bound with
  | none => []
  | some written => [written.keyword.val, written.word.val]

/-- The words of a clause. -/
def WrittenClause.words : List Text :=
  (match clause.own with
    | none => []
    | some written => [written.keyword]) ++ clause.name.text :: clause.endingWords

/-- A word is one word. -/
theorem words_word (word : Word) : Text.words word.val = [word.val] :=
  Text.words_single word.property.1 fun c member =>
    Text.isBlank_of_word (word.property.2 c member)

/-- What follows a name adds its own words. -/
theorem WrittenClause.words_ending (front : Text) :
    Text.words (front ++ clause.ending) = Text.words front ++ clause.endingWords := by
  cases is : clause.bound with
  | none =>
      rw [ending, endingWords, is, List.nil_append, Text.words_before clause.after.property,
        List.append_nil]
  | some written =>
      have keyword : Text.words written.keyword.val = [written.keyword.val] :=
        words_word ⟨_, filled_keyword (by decide) written.keyword,
          isWord_keyword (by decide) written.keyword⟩
      rw [ending, endingWords, is]
      change Text.words (front ++ (written.text ++ clause.after.val)) =
        Text.words front ++ [written.keyword.val, written.word.val]
      rw [← List.append_assoc, Text.words_before clause.after.property, WrittenAlias.text,
        Text.words_gap written.before.property.1 written.before.property.2,
        Text.words_gap written.after.property.1 written.after.property.2, keyword,
        words_word written.word]
      rfl

/-- A clause is split into its words. -/
theorem WrittenClause.words_text : Text.words clause.text = clause.words := by
  have name : Text.words clause.name.text = [clause.name.text] :=
    Text.words_single clause.name.text_filled clause.name.text_solid
  rw [text, Text.words_behind clause.before.property, words]
  cases clause.own with
  | none =>
      change Text.words (clause.name.text ++ clause.ending) = _
      rw [words_ending, name]
      rfl
  | some written =>
      rw [kindText, WrittenKind.text, List.append_assoc,
        Text.words_gap written.gap.property.1 written.gap.property.2, words_ending, name,
        words_word ⟨_, written.keyword_filled, written.keyword_word⟩]
      rfl

/-- What a clause imports behind the start of its group. -/
def WrittenClause.imported (common : ImportKind) (start : Text) : Import :=
  ⟨clause.kind common, start ++ clause.name.bare, clause.boundWord⟩

/-- A clause without a kind imports its name behind the start of its group. -/
theorem WrittenClause.plainClause?_words {kind : ImportKind} {start : Text}
    (ends : start = [] ∨ ∃ before, start = before ++ Text.ofString "\\")
    (solid : ∀ c ∈ start, isBlank c = false) :
    plainClause? kind start (clause.name.text :: clause.endingWords) =
      some ⟨kind, start ++ clause.name.bare, clause.boundWord⟩ := by
  have named : isImportedName clause.name.text = true := by
    have all := List.all_eq_true.mpr clause.name.text_nameCharacter
    simp [isImportedName, clause.name.text_filled, all]
  cases is : clause.bound with
  | none =>
      simp only [endingWords, boundWord, is, plainClause?, named, if_true,
        ImportName.dropWhile_backslash, clause.name.shortName_bare ends solid]
  | some written =>
      have keyword : matchesKeyword "as" written.keyword.val = true :=
        matchesKeyword_self (by decide) written.keyword.property
      have aliased : isAlias written.word.val = true := by
        have all := List.all_eq_true.mpr written.word.property.2
        simp [isAlias, written.word.property.1, all]
      simp only [endingWords, boundWord, is, plainClause?, named, keyword, aliased, Bool.and_self,
        if_true, ImportName.dropWhile_backslash]

/-- A clause imports what it says, with its own kind or that of its declaration. -/
theorem WrittenClause.clause?_words {common : ImportKind} {start : Text}
    (ends : start = [] ∨ ∃ before, start = before ++ Text.ofString "\\")
    (solid : ∀ c ∈ start, isBlank c = false) :
    clause? common start clause.words = some (clause.imported common start) := by
  cases is : clause.own with
  | none =>
      -- A name that is taken for a kind leaves no clause behind it.
      have noOwn (kind : ImportKind) : plainClause? kind start clause.endingWords = none := by
        rw [endingWords]
        cases clause.bound <;> rfl
      have words : clause.words = clause.name.text :: clause.endingWords := by
        rw [WrittenClause.words, is]
        rfl
      rw [clause?, words, imported, kind, is, clause.plainClause?_words ends solid]
      cases found : importKind? clause.name.text with
      | none => simp [found]
      | some kind => simp [noOwn]
  | some written =>
      have words : clause.words = written.keyword :: clause.name.text :: clause.endingWords := by
        rw [WrittenClause.words, is]
        rfl
      rw [clause?, words, imported, kind, is]
      simp [written.importKind?_keyword, clause.plainClause?_words ends solid]

end

/-- Nothing is imported from what follows a name alone. -/
theorem WrittenClause.clause?_endingWords (clause : WrittenClause) (kind : ImportKind)
    (start : Text) : clause? kind start clause.endingWords = none := by
  rw [endingWords]
  cases clause.bound with
  | none => rfl
  | some written =>
      have noKind : importKind? written.keyword.val = none := by
        rw [← importKind?_small, written.keyword.property]
        decide
      simp [clause?, noKind, plainClause?]

/-- Nothing follows a name, or a blank does. -/
theorem WrittenClause.ending_cases (clause : WrittenClause) :
    (clause.ending = [] ∧ (clause.bound.isSome || !clause.after.val.isEmpty) = false) ∨
      ∃ c rest, clause.ending = c :: rest ∧ isBlank c = true ∧
        (clause.bound.isSome || !clause.after.val.isEmpty) = true := by
  cases bound : clause.bound with
  | none =>
      cases after : clause.after.val with
      | nil => exact .inl ⟨by rw [ending, bound, after]; rfl, rfl⟩
      | cons c rest =>
          exact .inr ⟨c, rest, by rw [ending, bound, after]; rfl,
            clause.after.property c (after ▸ List.mem_cons_self), rfl⟩
  | some written =>
      obtain ⟨c, rest, before⟩ := List.exists_cons_of_ne_nil written.before.property.1
      have text : clause.ending = written.text ++ clause.after.val := by rw [ending, bound]
      refine .inr ⟨c, _, by rw [text, WrittenAlias.text, before]; rfl, ?_, rfl⟩
      exact written.before.property.2 c (before ▸ List.mem_cons_self)

/-- What follows a name has no comma and no bracket. -/
theorem WrittenClause.ending_plain (clause : WrittenClause) :
    ∀ c ∈ clause.ending, isClauseCharacter c = true := by
  intro c member
  rw [ending] at member
  rcases List.mem_append.mp member with bound | after
  · cases is : clause.bound with
    | none =>
        rw [is] at bound
        cases bound
    | some written =>
        rw [is] at bound
        change c ∈ written.before.val ++ (written.keyword.val ++
          (written.after.val ++ written.word.val)) at bound
        rcases List.mem_append.mp bound with before | bound
        · exact isClauseCharacter_blank (written.before.property.2 c before)
        rcases List.mem_append.mp bound with keyword | bound
        · have whole := isWord_keyword (by decide) written.keyword
          exact isClauseCharacter_word (whole c keyword)
        rcases List.mem_append.mp bound with after | word
        · exact isClauseCharacter_blank (written.after.property.2 c after)
        · exact isClauseCharacter_word (written.word.property.2 c word)
  · exact isClauseCharacter_blank (clause.after.property c after)

/-- A clause has no comma and no bracket. -/
theorem WrittenClause.text_plain (clause : WrittenClause) :
    ∀ c ∈ clause.text, isClauseCharacter c = true := by
  intro c member
  rcases List.mem_append.mp member with before | member
  · exact isClauseCharacter_blank (clause.before.property c before)
  rcases List.mem_append.mp member with own | member
  · cases is : clause.own with
    | none =>
        rw [is] at own
        cases own
    | some written =>
        rw [is] at own
        rcases List.mem_append.mp own with keyword | gap
        · exact isClauseCharacter_word (written.keyword_word c keyword)
        · exact isClauseCharacter_blank (written.gap.property.2 c gap)
  rcases List.mem_append.mp member with name | ending
  · exact isClauseCharacter_name (clause.name.text_nameCharacter c name)
  · exact clause.ending_plain c ending

end Untranslated.Php
