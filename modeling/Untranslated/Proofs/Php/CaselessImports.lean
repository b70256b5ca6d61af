/-
This file proves that the case of ASCII letters does not matter for the imports of a file: the same
aliases are bound, and they stand for the same names up to case.
-/

import Untranslated.Php.Import
import Untranslated.Proofs.Text.Letters
import Untranslated.Proofs.Text.Splitting

namespace Untranslated.Php

open Text

/-- Being a character that is no letter does not depend on case. -/
theorem caseless_is {char : Char} (noLetter : char.toNat < 0x41 ∨
    (0x5A < char.toNat ∧ char.toNat < 0x61) ∨ 0x7A < char.toNat) :
    Caseless (CodePoint.is · char) := caseless_value noLetter

theorem caseless_isBackslash : Caseless isBackslash := caseless_is (by decide)

theorem caseless_noBackslash : Caseless (!isBackslash ·) :=
  fun c => congrArg not (caseless_isBackslash c)

theorem caseless_isNameCharacter : Caseless isNameCharacter := fun c => by
  rw [isNameCharacter, isNameCharacter, caseless_isWord c, caseless_isBackslash c]

theorem caseless_keywordLetter? : Caseless keywordLetter? := caseless_of_letters (by decide +kernel)

/-- The last segment of a name in small letters is that of the name, in small letters. -/
theorem shortName_small (name : Text) : shortName name.small = (shortName name).small := by
  rw [shortName, shortName, small_strip, small_reverse, small_takeWhile _ caseless_noBackslash,
    small_reverse]

/-- A keyword is matched whatever the case is. -/
theorem matchesKeyword_small (keyword : String) (t : Text) :
    matchesKeyword keyword t.small = matchesKeyword keyword t := by
  rw [matchesKeyword, matchesKeyword, small, List.map_map, caseless_keywordLetter?.comp]

theorem keywordKind_small (word : Text) : keywordKind word.small = keywordKind word := by
  rw [keywordKind, keywordKind, lower_small]

theorem importKind?_small (word : Text) : importKind? word.small = importKind? word := by
  rw [importKind?, importKind?, matchesKeyword_small, matchesKeyword_small, keywordKind_small]

theorem isImportedName_small (word : Text) : isImportedName word.small = isImportedName word := by
  rw [isImportedName, isImportedName, small_isEmpty, small_all _ caseless_isNameCharacter]

theorem isAlias_small (word : Text) : isAlias word.small = isAlias word := by
  rw [isAlias, isAlias, small_isEmpty, small_all _ caseless_isWord]

/-- An import in small letters. -/
def Import.small (imported : Import) : Import :=
  ⟨imported.kind, imported.name.small, imported.bound.small⟩

/-- A clause in small letters imports the same in small letters. -/
theorem plainClause?_small (kind : ImportKind) (start : Text) (words : List Text) :
    plainClause? kind start.small (words.map Text.small) =
      (plainClause? kind start words).map Import.small := by
  have full (name : Text) : start.small ++ name.small.dropWhile isBackslash =
      Text.small (start ++ name.dropWhile isBackslash) := by
    rw [small_dropWhile _ caseless_isBackslash, small_append]
  match words with
  | [] | _ :: _ :: _ :: _ :: _ => rfl
  | [name] =>
      simp only [List.map_cons, List.map_nil, plainClause?, full, isImportedName_small,
        shortName_small]
      split <;> rfl
  | [_, _] => rfl
  | [name, word, bound] =>
      simp only [List.map_cons, List.map_nil, plainClause?, full, isImportedName_small,
        matchesKeyword_small, isAlias_small]
      split <;> rfl

/-- A clause with its own kind in small letters imports the same in small letters. -/
theorem clause?_small (kind : ImportKind) (start : Text) (words : List Text) :
    clause? kind start.small (words.map Text.small) =
      (clause? kind start words).map Import.small := by
  cases words with
  | nil => rfl
  | cons word rest =>
      have plain := plainClause?_small kind start (word :: rest)
      have own (own : ImportKind) := plainClause?_small own start rest
      rw [List.map_cons] at plain
      simp only [clause?, List.map_cons, List.head?_cons, List.drop_one, List.tail_cons,
        Option.bind_eq_bind, Option.bind_some, importKind?_small, plain]
      cases importKind? word with
      | none => rfl
      | some found =>
          simp only [Option.bind_some, own]
          cases plainClause? found start rest <;> rfl

/-- A group in small letters has the same parts in small letters. -/
theorem group?_small (body : Text) :
    group? body.small = (group? body).map fun (start, inside) => (start.small, inside.small) := by
  simp only [group?, small_takeWhile _ caseless_isNameCharacter, small_length, small_drop]
  have opens : Caseless (CodePoint.is · '\x7b') := caseless_is (by decide)
  have closes : Caseless (CodePoint.is · '\x7d') := caseless_is (by decide)
  match body.drop (body.takeWhile isNameCharacter).length with
  | [] => rfl
  | [_] => rfl
  | c :: d :: rest =>
      have last : (small (d :: rest)).getLast?.any (CodePoint.is · '\x7d') =
          (d :: rest).getLast?.any (CodePoint.is · '\x7d') := by
        rw [small_getLast?]
        cases (d :: rest).getLast? with
        | none => rfl
        | some last => exact closes last
      simp only [small_cons, opens c]
      rw [← small_cons, last, small_trimEnd _ caseless_isBackslash, small_dropLast]
      split <;> rfl

/-- The semicolon at the end does not depend on case. -/
theorem withoutSemicolon_small (t : Text) :
    withoutSemicolon t.small = (withoutSemicolon t).small := by
  have caseless : Caseless (· == CodePoint.ofChar ';') :=
    caseless_of_letters (by decide)
  have ends (body : Text) : endsWith ";" body.small = endsWith ";" body := by
    change endsWith [CodePoint.ofChar ';'] body.small = endsWith [CodePoint.ofChar ';'] body
    rw [endsWith_singleton, endsWith_singleton, small_getLast?]
    cases body.getLast? with
    | none => rfl
    | some last => exact caseless last
  simp only [withoutSemicolon, small_trimEnd _ caseless_isBlank, ends, small_dropLast]
  split <;> rfl

/-- What stands behind a keyword does so in small letters, too. -/
theorem afterKeyword?_small (keyword : String) (t : Text) :
    afterKeyword? keyword t.small = (afterKeyword? keyword t).map Text.small := by
  have blank (rest : Text) : rest.small.head?.any isBlank = rest.head?.any isBlank := by
    cases rest with
    | nil => rfl
    | cons c rest => exact caseless_isBlank c
  simp only [afterKeyword?, small_take, small_drop, matchesKeyword_small, blank,
    small_dropWhile _ caseless_isBlank]
  split <;> rfl

/-- A declaration is of one kind whatever the case is, and its rest is in small letters. -/
theorem declarationKind_small (t : Text) :
    declarationKind t.small = ((declarationKind t).1, (declarationKind t).2.small) := by
  simp only [declarationKind, afterKeyword?_small, small_take, keywordKind_small]
  cases afterKeyword? "function" t with
  | some rest => rfl
  | none => cases afterKeyword? "const" t <;> rfl

/-- A declaration in small letters imports the same in small letters. -/
theorem importsOf_small (declaration : Text) :
    importsOf declaration.small = (importsOf declaration).map Import.small := by
  have comma : Caseless (· == CodePoint.ofChar ',') := caseless_of_letters (by decide)
  unfold importsOf
  rw [small_dropWhile _ caseless_isBlank, afterKeyword?_small]
  cases afterKeyword? "use" (declaration.dropWhile isBlank) with
  | none => rfl
  | some rest =>
      have parts (kind : ImportKind) (start inside : Text) :
          (splitAtChar ',' inside.small).filterMap (clause? kind start.small ∘ words) =
            ((splitAtChar ',' inside).filterMap (clause? kind start ∘ words)).map Import.small := by
        rw [splitAtChar, small_splitWhere _ comma, List.filterMap_map, List.map_filterMap]
        congr 1
        funext part
        simp only [Function.comp_apply, small_words, clause?_small]
      simp only [Option.map_some, declarationKind_small, withoutSemicolon_small, small_strip,
        group?_small]
      cases group? (strip (withoutSemicolon (declarationKind rest).2)) with
      | none => exact parts (declarationKind rest).1 [] _
      | some group =>
          obtain ⟨start, inside⟩ := group
          cases start with
          | nil => exact parts (declarationKind rest).1 [] inside
          | cons c start =>
              have named :=
                parts (declarationKind rest).1 ((c :: start) ++ Text.ofString "\\") inside
              have backslash : small (Text.ofString "\\") = Text.ofString "\\" := by decide
              rw [small_append, backslash] at named
              exact named

/-- A table whose names are in small letters. -/
def AliasTable.small (table : AliasTable) : AliasTable :=
  table.map fun (word, name) => (word, name.small)

/-- Aliases whose names are in small letters. -/
def Aliases.small (aliases : Aliases) : Aliases :=
  ⟨aliases.classes.small, aliases.functions.small⟩

/-- A name in small letters is bound in the table in small letters. -/
theorem AliasTable.bind_small (word name : Text) (table : AliasTable) :
    table.small.bind word name.small = (table.bind word name).small := by
  simp only [bind, small, List.map_cons, List.filter_map]
  rfl

/-- A word is looked for in the table in small letters as in the table itself. -/
theorem AliasTable.lookup?_small (word : Text) (table : AliasTable) :
    table.small.lookup? word = (table.lookup? word).map Text.small := by
  simp only [lookup?, small, List.find?_map, Option.map_map]
  rfl

/-- A name is resolved alike in small letters. -/
theorem AliasTable.resolve_small (table : AliasTable) (name : Text) :
    table.small.resolve name.small = (table.resolve name).small := by
  simp only [resolve, small_strip, small_any _ caseless_isBackslash, shortName_small, lower_small,
    lookup?_small]
  split
  · rfl
  · cases table.lookup? (lower (strip name)) <;> rfl

/-- An import in small letters is added to the aliases in small letters. -/
theorem Aliases.add_small (aliases : Aliases) (imported : Import) :
    aliases.small.add imported.small = (aliases.add imported).small := by
  obtain ⟨kind, name, bound⟩ := imported
  simp only [add, Import.small, lower_small, shortName_small]
  cases kind <;> simp only [small, AliasTable.bind_small]

/-- Imports in small letters make the aliases in small letters. -/
theorem Aliases.addAll_small (imports : List Import) (aliases : Aliases) :
    (imports.map Import.small).foldl Aliases.add aliases.small =
      (imports.foldl Aliases.add aliases).small := by
  induction imports generalizing aliases with
  | nil => rfl
  | cons imported rest inductionHypothesis =>
      rw [List.map_cons, List.foldl_cons, add_small, inductionHypothesis]
      rfl

end Untranslated.Php
