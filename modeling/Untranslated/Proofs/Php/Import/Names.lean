/-
This file proves what a name in a file stands for: the name that it is an alias of, or itself.
Only the last segment of that name counts.
-/

import Mathlib.Data.List.TakeWhile
import Untranslated.Proofs.Php.Import.Declarations

namespace Untranslated.Php

open Text (isBlank isWord splitAtChar strip)

/-- A name has segments of word characters, and a backslash may stand in front of them. -/
inductive IsName : Text → Prop where
  | word (word : Word) : IsName word.val
  | rooted (word : Word) : IsName (.ofChar '\\' :: word.val)
  | within {front : Text} (named : IsName front) (word : Word) :
      IsName (front ++ .ofChar '\\' :: word.val)

/-- What follows the last backslash of a name. -/
def lastSegment (name : Text) : Text := (splitAtChar '\\' name).getLastD []

/-- A word has no backslash. -/
theorem noBackslash_word (word : Word) : CodePoint.ofChar '\\' ∉ word.val := by
  intro member
  have outside : isWord (.ofChar '\\') = false := Text.isWord_mark (by decide)
  rw [word.property.2 _ member] at outside
  cases outside

/-- A name without a backslash is its own last segment. -/
theorem lastSegment_single {name : Text} (single : CodePoint.ofChar '\\' ∉ name) :
    lastSegment name = name := by
  rw [lastSegment, Text.splitAtChar_single single]
  rfl

/-- The last segment follows the last backslash. -/
theorem lastSegment_append (front : Text) {last : Text} (single : CodePoint.ofChar '\\' ∉ last) :
    lastSegment (front ++ .ofChar '\\' :: last) = last := by
  have filled : splitAtChar '\\' last ≠ [] := Text.splitWhere_filled last
  have own := lastSegment_single single
  rw [lastSegment, List.getLastD_eq_getLast?] at own
  rw [lastSegment, Text.splitAtChar_append, List.getLastD_eq_getLast?,
    List.getLast?_append_of_ne_nil _ filled, own]

/-- Without blanks around it, the short form of a name is its last segment. -/
theorem shortName_lastSegment {name : Text} (solid : ∀ c ∈ name, isBlank c = false) :
    shortName name = lastSegment name := by
  -- The short form is read from the end up to the first backslash that is met there.
  have apart := List.takeWhile_append_dropWhile (p := (!isBackslash ·)) (l := name.reverse)
  rw [shortName, Text.strip_solid solid]
  generalize taken : name.reverse.takeWhile (!isBackslash ·) = last at apart ⊢
  have single : CodePoint.ofChar '\\' ∉ last.reverse := by
    intro member
    have inside : CodePoint.ofChar '\\' ∈ name.reverse.takeWhile (!isBackslash ·) :=
      taken ▸ List.mem_reverse.mp member
    exact absurd (List.mem_takeWhile_imp inside) (by decide)
  cases rest : name.reverse.dropWhile (!isBackslash ·) with
  | nil =>
      rw [rest, List.append_nil] at apart
      have whole : name = last.reverse := by rw [apart, List.reverse_reverse]
      rw [whole, lastSegment_single single]
  | cons mark before =>
      have backslash : mark = .ofChar '\\' := by
        have stops := List.head?_dropWhile_not (!isBackslash ·) name.reverse
        rw [rest] at stops
        exact Literal.is_iff.mp (by simpa [isBackslash] using stops)
      have whole : name = before.reverse ++ .ofChar '\\' :: last.reverse := by
        rw [← List.reverse_reverse name, ← apart, rest, backslash]
        simp
      rw [whole, lastSegment_append _ single]

section

variable {name : Text}

/-- A name consists of the characters of names. -/
theorem IsName.nameCharacter (named : IsName name) : ∀ c ∈ name, isNameCharacter c = true := by
  have segment (word : Word) : ∀ c ∈ word.val, isNameCharacter c = true := fun c member => by
    rw [isNameCharacter, word.property.2 c member]
    rfl
  have rooted (word : Word) : ∀ c ∈ CodePoint.ofChar '\\' :: word.val, isNameCharacter c = true :=
    List.forall_mem_cons.mpr ⟨isNameCharacter_backslash, segment word⟩
  induction named with
  | word word => exact segment word
  | rooted word => exact rooted word
  | within named word inductionHypothesis =>
      exact List.forall_mem_append.mpr ⟨inductionHypothesis, rooted word⟩

theorem IsName.solid (named : IsName name) : ∀ c ∈ name, isBlank c = false :=
  fun c member => isBlank_nameCharacter (named.nameCharacter c member)

/-- A name is not empty. -/
theorem IsName.filled (named : IsName name) : name ≠ [] := by
  cases named with
  | word word => exact word.property.1
  | rooted word => exact List.cons_ne_nil _ _
  | within named word => simp

/-- No other ASCII character than a letter, a digit, an underscore or a backslash is in a name. -/
theorem IsName.noMark (named : IsName name) {mark : Char} (outside : mark.toNat < 128 ∧
    mark.isAlphanum = false ∧ mark ∉ ['_', '\\']) : CodePoint.ofChar mark ∉ name := by
  intro member
  have own := named.nameCharacter _ member
  rw [isNameCharacter_mark outside] at own
  cases own

/-- The last segment of a name is a word. -/
theorem IsName.lastSegment_word (named : IsName name) : ∃ word : Word,
    lastSegment name = word.val := by
  cases named with
  | word word => exact ⟨word, lastSegment_single (noBackslash_word word)⟩
  | rooted word => exact ⟨word, lastSegment_append [] (noBackslash_word word)⟩
  | within named word => exact ⟨word, lastSegment_append _ (noBackslash_word word)⟩

end

/-- A clause without a kind imports a name without blanks. -/
theorem plainClause?_solid {kind : ImportKind} {start : Text} {words : List Text}
    {imported : Import} (solid : ∀ c ∈ start, isBlank c = false)
    (found : plainClause? kind start words = some imported) :
    ∀ c ∈ imported.name, isBlank c = false := by
  have bare {name : Text} (is : isImportedName name = true) :
      ∀ c ∈ start ++ name.dropWhile isBackslash, isBlank c = false := by
    refine List.forall_mem_append.mpr ⟨solid, fun c member => ?_⟩
    have all := List.all_eq_true.mp (Bool.and_eq_true_iff.mp is).2
    exact isBlank_nameCharacter (all c ((List.dropWhile_sublist _).mem member))
  unfold plainClause? at found
  split at found
  · simp only at found
    split at found
    · next is =>
      cases found
      exact bare is
    · cases found
  · split at found
    · next is =>
      cases found
      simp only [Bool.and_eq_true] at is
      exact bare is.1.1
    · cases found
  · cases found

/-- A clause imports a name without blanks. -/
theorem clause?_solid {kind : ImportKind} {start : Text} {words : List Text} {imported : Import}
    (solid : ∀ c ∈ start, isBlank c = false) (found : clause? kind start words = some imported) :
    ∀ c ∈ imported.name, isBlank c = false := by
  unfold clause? at found
  simp only [Option.orElse_eq_orElse, Option.orElse_eq_or, Option.or_eq_some_iff] at found
  rcases found with own | ⟨-, plain⟩
  · obtain ⟨word, -, own⟩ := Option.bind_eq_some_iff.mp own
    obtain ⟨kind, -, own⟩ := Option.bind_eq_some_iff.mp own
    exact plainClause?_solid solid own
  · exact plainClause?_solid solid plain

/-- The start of a group has no blanks. -/
theorem group?_solid {body start inside : Text} (found : group? body = some (start, inside)) :
    ∀ c ∈ start, isBlank c = false := by
  unfold group? at found
  simp only at found
  split at found
  · split at found
    · cases found
      intro c member
      have reversed := (List.dropWhile_sublist _).mem (List.mem_reverse.mp member)
      have taken : c ∈ body.takeWhile isNameCharacter := List.mem_reverse.mp reversed
      exact isBlank_nameCharacter (List.mem_takeWhile_imp taken)
    · cases found
  · cases found

/-- No imported name has a blank in it. -/
theorem importsOf_solid {declaration : Text} {imported : Import}
    (member : imported ∈ importsOf declaration) : ∀ c ∈ imported.name, isBlank c = false := by
  unfold importsOf at member
  split at member
  · cases member
  · simp only at member
    obtain ⟨part, -, clause⟩ := List.mem_filterMap.mp member
    refine clause?_solid ?_ clause
    split
    · next start inside group =>
      have solid := group?_solid group
      dsimp only
      split
      · simp
      · exact List.forall_mem_append.mpr ⟨solid, by decide⟩
    · simp

/-- A name with a backslash stands for itself, and so does one that no import binds. Otherwise the
last import that binds it tells what it stands for. -/
def denoted (kind : ImportKind) (imports : List Import) (name : Text) : Text :=
  if CodePoint.ofChar '\\' ∈ name then name
  else
    ((imports.reverse.find? fun imported =>
      imported.kind = kind ∧ Text.lower imported.bound = Text.lower name).map (·.name)).getD name

/-- The last binding is that of the last import. -/
theorem lastBound_bindingsOf (kind : ImportKind) (imports : List Import) (word : Text) :
    lastBound word (bindingsOf kind imports) =
      (imports.reverse.find? fun imported =>
        imported.kind = kind ∧ Text.lower imported.bound = word).map (shortName ·.name) := by
  rw [lastBound, bindingsOf, ← List.map_reverse, ← List.filter_reverse, List.find?_map,
    List.find?_filter, Option.map_map]
  simp only [Function.comp_def, Bool.decide_and, decide_eq_true_eq]

/-- The table of a file leads a name to the last segment of what it stands for. -/
theorem resolve_denoted {table : AliasTable} {kind : ImportKind} {program : Program}
    (told : ∀ word, table.lookup? word = lastBound word (bindingsOf kind program.imports))
    {name : Text} (named : IsName name) :
    table.resolve name = lastSegment (denoted kind program.imports name) := by
  have any : name.any isBackslash = decide (CodePoint.ofChar '\\' ∈ name) := by
    rw [Bool.eq_iff_iff, List.any_eq_true, decide_eq_true_eq]
    simp [isBackslash, Literal.is_iff]
  rw [AliasTable.resolve, Text.strip_solid named.solid, any, denoted, told, lastBound_bindingsOf]
  by_cases qualified : CodePoint.ofChar '\\' ∈ name
  · simp only [qualified, decide_true, if_true]
    exact shortName_lastSegment named.solid
  · simp only [qualified, decide_false, Bool.false_eq_true, if_false]
    cases found : program.imports.reverse.find? fun imported =>
        imported.kind = kind ∧ Text.lower imported.bound = Text.lower name with
    | none => exact (lastSegment_single qualified).symm
    | some imported =>
        have member := List.mem_reverse.mp (List.mem_of_find?_eq_some found)
        obtain ⟨node, -, own⟩ := List.mem_flatMap.mp member
        exact shortName_lastSegment (importsOf_solid own)

/-- A function is resolved to the last segment of what its name stands for. -/
theorem functions_denoted (program : Program) {name : Text} (named : IsName name) :
    program.aliases.functions.resolve name =
      lastSegment (denoted .function program.imports name) :=
  resolve_denoted (fun word => (addAll_lookup? program.imports word).2) named

/-- A class is resolved to the last segment of what its name stands for. -/
theorem classes_denoted (program : Program) {name : Text} (named : IsName name) :
    program.aliases.classes.resolve name =
      lastSegment (denoted .classLike program.imports name) :=
  resolve_denoted (fun word => (addAll_lookup? program.imports word).1) named

end Untranslated.Php
