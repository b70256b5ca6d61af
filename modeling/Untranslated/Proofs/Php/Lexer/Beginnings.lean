/-
This file proves that the first characters of a text tell what begins in code.
There is one table of beginnings, and the first of them that fits leads to the step.
-/

import Mathlib.Data.List.Find
import Untranslated.Proofs.Php.Lexer.Quoted

namespace Untranslated.Php

/-- A quoted text may have one of these letters in front. -/
inductive Letter where
  | absent
  | small
  | capital

/-- The letter as it is written, if there is one. -/
def Letter.text : Letter → List Char
  | .absent => []
  | .small => ['b']
  | .capital => ['B']

/-- What can begin in code. A fraction is a number with a point in front. -/
inductive Beginning where
  | blank
  | word
  | number
  | fraction
  | markup
  | lineComment
  | blockComment
  | hash
  | mark (spelling : String)
  | singleQuoted (letter : Letter)
  | doubleQuoted (letter : Letter)
  | shellQuoted
  | document (letter : Letter)
  | unknown

/-- One test for each character of a text. -/
def spelled (text : List Char) : List (Char → Bool) := text.map fun c => (c == ·)

/-- The length of a hash comment after its hash. -/
def hashLength : List Char → Nat
  | [] => 0
  | c :: rest => if c == '?' || c == '\r' || c == '\n' then 0 else 1 + lineCommentLength rest

/-- More text does not change where a hash comment ends. -/
theorem settled_hashLength : Settled hashLength := by
  intro text added
  cases text with
  | nil => exact (Nat.eq_zero_or_pos _).imp_right id
  | cons c rest =>
      simp only [List.cons_append, hashLength, List.length_cons]
      have comment := settled_lineCommentLength rest added
      split <;> omega

namespace Beginning

/-- The tests for the first characters that tell a beginning. -/
def tests : Beginning → List (Char → Bool)
  | blank => [isCodeBlank]
  | word => [isNameStart]
  | number => [Char.isDigit]
  | fraction => [(· == '.'), Char.isDigit]
  | markup => spelled ['?', '>']
  | lineComment => spelled ['/', '/']
  | blockComment => spelled ['/', '*']
  | hash => spelled ['#']
  | mark spelling => spelled spelling.toList
  | singleQuoted letter => spelled (letter.text ++ ['\''])
  | doubleQuoted letter => spelled (letter.text ++ ['"'])
  | shellQuoted => spelled ['\x60']
  | document letter => spelled (letter.text ++ ['<', '<', '<'])
  | unknown => []

/-- The step that a beginning leads to. -/
def step (frames : List Frame) (cs : List Char) : Beginning → LexStep
  | blank => .blank 1
  | word => wordStep frames cs
  | number | fraction => numberStep frames cs
  | markup => .extra .markup (2 + markupLength (cs.drop 2))
  | lineComment => .extra .lineComment (2 + lineCommentLength (cs.drop 2))
  | blockComment =>
    match blockCommentLength? (cs.drop 2) with
    | some size => .extra .blockComment (2 + size)
    | none => .lexeme .broken "" cs.length frames
  | hash => .extra .hashComment (1 + hashLength (cs.drop 1))
  | mark spelling => .lexeme .mark spelling spelling.length (framesAfter spelling frames)
  | singleQuoted letter => singleQuotedStep (letter.text.length + 1) frames cs
  | doubleQuoted letter =>
    quotedStep .doubleQuoted .double (letter.text.length + 1) frames cs
  | shellQuoted => quotedStep .shellQuoted .shell 1 frames cs
  | document letter => documentStep letter.text.length frames cs
  | unknown => .lexeme .broken "" cs.length frames

end Beginning

/-- The first characters of a text pass these tests. -/
def passes : List (Char → Bool) → List Char → Bool
  | [], _ => true
  | _ :: _, [] => false
  | test :: tests, c :: rest => test c && passes tests rest

/-- Template text, comments and quotations, by what they begin with. -/
def codeOpenings : List Beginning :=
  [.markup, .lineComment, .blockComment, .mark "#[", .hash, .singleQuoted .absent,
    .doubleQuoted .absent, .shellQuoted]

/-- Quoted texts with a letter in front. -/
def lettered : List Beginning :=
  [.singleQuoted .small, .doubleQuoted .small, .document .small,
    .singleQuoted .capital, .doubleQuoted .capital, .document .capital]

/-- What begins where no template text, no comment and no quotation does. After an operand a point
and angle brackets are marks. -/
def plainBeginnings (operand : Bool) : List Beginning :=
  .blank :: (lettered ++ .word :: .number :: ((if operand then [] else
    [.fraction, .document .absent]) ++ marks.map .mark))

/-- All that can begin in code, in the order of the tests. -/
def beginnings (operand : Bool) : List Beginning := codeOpenings ++ plainBeginnings operand

/-- The first of some beginnings that fits. -/
def firstOf (table : List Beginning) (cs : List Char) : Beginning :=
  (table.find? fun entry => passes entry.tests cs).getD .unknown

/-- What begins in front of a text. -/
def beginning (operand : Bool) (cs : List Char) : Beginning := firstOf (beginnings operand) cs

/-- There are as many tests as characters. -/
@[simp]
theorem length_spelled (text : List Char) : (spelled text).length = text.length := List.length_map _

/-- A text passes the tests of its beginning. -/
theorem passes_spelled (text cs : List Char) : passes (spelled text) cs = text.isPrefixOf cs := by
  induction text generalizing cs with
  | nil => simp [spelled, passes]
  | cons c rest inductionHypothesis =>
      cases cs with
      | nil => rfl
      | cons d others => exact congrArg _ (inductionHypothesis others)

/-- A text passes the tests of another one just when it begins with it. -/
theorem passes_spelled_iff {text cs : List Char} :
    passes (spelled text) cs = true ↔ ∃ rest, cs = text ++ rest := by
  rw [passes_spelled, List.isPrefixOf_iff_prefix]
  exact exists_congr fun _ => eq_comm

theorem passes_class {test : Char → Bool} {c : Char} {rest : List Char} :
    test c = true ↔ passes [test] (c :: rest) = true := by
  simp [passes]

section

variable {table later : List Beginning} {entry : Beginning} {cs : List Char}

theorem firstOf_cons_of_passes (fits : passes entry.tests cs = true) :
    firstOf (entry :: table) cs = entry := by
  simp [firstOf, fits]

theorem firstOf_cons_of_not (fits : ¬passes entry.tests cs = true) :
    firstOf (entry :: table) cs = firstOf table cs := by
  simp [firstOf, fits]

/-- Texts that pass the same tests begin with the same. -/
theorem firstOf_congr {cs' : List Char}
    (same : ∀ entry ∈ table, passes entry.tests cs = passes entry.tests cs') :
    firstOf table cs = firstOf table cs' :=
  congrArg (·.getD Beginning.unknown) (List.find?_congr same)

/-- A step by a test is the step of the entry with this test. -/
theorem step_cons {frames : List Frame} {found otherwise : LexStep} {test : Prop} [Decidable test]
    (told : test ↔ passes entry.tests cs = true) (here : found = entry.step frames cs)
    (further : otherwise = (firstOf table cs).step frames cs) :
    (if test then found else otherwise) = (firstOf (entry :: table) cs).step frames cs := by
  by_cases fits : test
  · rw [if_pos fits, firstOf_cons_of_passes (told.mp fits), here]
  · rw [if_neg fits, firstOf_cons_of_not fun own => fits (told.mpr own), further]

/-- Entries that do not fit are left out. -/
theorem firstOf_append (absent : ∀ entry ∈ table, ¬passes entry.tests cs = true) :
    firstOf (table ++ later) cs = firstOf later cs := by
  rw [firstOf, List.find?_append, List.find?_eq_none.mpr absent]
  rfl

end

/-- A letter in front of a quoted text is a word of its own, and the mark of the text follows. -/
theorem lettered_begins {c : Char} {rest : List Char} {entry : Beginning}
    (member : entry ∈ lettered) (fits : passes entry.tests (c :: rest) = true) :
    isNameStart c = true ∧ isPrefixLetter ((c :: rest).takeWhile isNamePart) = true ∧
      ((∃ tail, rest = '\'' :: tail) ∨ (∃ tail, rest = '"' :: tail) ∨
        ∃ tail, rest = '<' :: '<' :: '<' :: tail) := by
  simp only [lettered, List.mem_cons, List.not_mem_nil, or_false] at member
  rcases member with rfl | rfl | rfl | rfl | rfl | rfl <;>
    obtain ⟨tail, same⟩ := passes_spelled_iff.mp fits <;> cases same
  · exact ⟨rfl, rfl, .inl ⟨_, rfl⟩⟩
  · exact ⟨rfl, rfl, .inr (.inl ⟨_, rfl⟩)⟩
  · exact ⟨rfl, rfl, .inr (.inr ⟨_, rfl⟩)⟩
  · exact ⟨rfl, rfl, .inl ⟨_, rfl⟩⟩
  · exact ⟨rfl, rfl, .inr (.inl ⟨_, rfl⟩)⟩
  · exact ⟨rfl, rfl, .inr (.inr ⟨_, rfl⟩)⟩

/-- Without the mark of a quoted text the letter is a name like any other. -/
theorem nameStep_eq (state : ReaderState) {c : Char} {rest : List Char}
    (name : isNameStart c = true) (others : List Beginning) :
    nameStep state (c :: rest) =
      (firstOf (lettered ++ .word :: others) (c :: rest)).step state.frames (c :: rest) := by
  have word (absent : ∀ entry ∈ lettered, ¬passes entry.tests (c :: rest) = true) :
      firstOf (lettered ++ .word :: others) (c :: rest) = .word := by
    rw [firstOf_append absent]
    exact firstOf_cons_of_passes (passes_class.mp name)
  unfold nameStep
  simp only
  split
  · rename_i letter
    have whole := takeWhile_drop isNamePart (c :: rest)
    obtain ⟨isLetter, same⟩ : (c = 'b' ∨ c = 'B') ∧ (c :: rest).takeWhile isNamePart = [c] := by
      rcases Bool.or_eq_true_iff.mp letter with is | is <;> rw [eq_of_beq is] at whole ⊢ <;>
        cases whole <;> simp
    rw [same]
    simp only [List.length_cons, List.length_nil, List.drop_succ_cons, List.drop_zero]
    split
    · rcases isLetter with rfl | rfl <;> rfl
    · rcases isLetter with rfl | rfl <;> rfl
    · rcases isLetter with rfl | rfl <;> rfl
    · rename_i single double document
      rw [word]
      · rfl
      · intro entry member fits
        rcases (lettered_begins member fits).2.2 with ⟨tail, same⟩ | ⟨tail, same⟩ | ⟨tail, same⟩
        · exact single tail same
        · exact double tail same
        · exact document tail same
  · rename_i plain
    rw [word fun entry member fits => plain (lettered_begins member fits).2.1]
    rfl

/-- Among the marks the reader takes the first one that fits. -/
theorem firstOf_marks (cs : List Char) :
    firstOf (marks.map .mark) cs = ((mark? cs).map Beginning.mark).getD .unknown := by
  have same : (fun mark => passes (Beginning.mark mark).tests cs) =
      fun mark => mark.toList.isPrefixOf cs := funext fun mark => passes_spelled _ _
  rw [firstOf, List.find?_map]
  exact congrArg (fun test => ((marks.find? test).map Beginning.mark).getD .unknown) same

/-- A step in plain code is the one that the table tells. -/
theorem plainStep_eq (state : ReaderState) (c : Char) (rest : List Char) :
    plainStep state c rest =
      (firstOf (plainBeginnings state.operand) (c :: rest)).step state.frames (c :: rest) := by
  have marked := firstOf_marks (c :: rest)
  unfold plainStep plainBeginnings
  generalize mark? (c :: rest) = mark at marked ⊢
  refine step_cons passes_class rfl ?_
  by_cases name : isNameStart c
  · rw [if_pos name]
    exact nameStep_eq state name _
  have noWord : ¬passes Beginning.word.tests (c :: rest) = true := mt passes_class.mpr name
  rw [if_neg name, firstOf_append fun entry member fits => name (lettered_begins member fits).1,
    firstOf_cons_of_not noWord]
  refine step_cons passes_class rfl ?_
  cases operand : state.operand with
  | true =>
      rw [if_neg (by simp), if_neg (by simp), if_pos rfl, List.nil_append, marked]
      cases mark <;> rfl
  | false =>
      rw [if_neg Bool.false_ne_true, List.cons_append, List.singleton_append]
      refine step_cons ?_ rfl (step_cons ?_ rfl ?_)
      · cases rest <;> simp [Beginning.tests, passes]
      · rw [Beginning.tests, passes_spelled, List.isPrefixOf_iff_prefix, List.prefix_iff_eq_take,
          Bool.not_false, Bool.true_and, beq_iff_eq]
        exact eq_comm
      · rw [marked]
        cases mark <;> rfl

/-- The first beginning that fits tells the step. -/
theorem codeStep_eq (state : ReaderState) {cs : List Char} (filled : cs ≠ []) :
    codeStep state cs = (beginning state.operand cs).step state.frames cs := by
  unfold codeStep
  split
  · exact absurd rfl filled
  · rfl
  · rfl
  · rfl
  · rfl
  · rename_i c rest noBracket
    have bracket : ¬passes (Beginning.mark "#[").tests ('#' :: c :: rest) = true := by
      intro fits
      obtain ⟨tail, same⟩ := passes_spelled_iff.mp fits
      cases same
      exact noBracket rfl
    have hash : beginning state.operand ('#' :: c :: rest) = .hash := firstOf_cons_of_not bracket
    rw [hash]
    simp only [Beginning.step, List.drop_succ_cons, List.drop_zero, hashLength]
    split
    · rfl
    · rw [← Nat.add_assoc]
  · rfl
  · rfl
  · rfl
  · rfl
  · rename_i c rest tag line block bracket comment hash single double shell
    rw [plainStep_eq, beginning, beginnings, firstOf_append]
    intro entry member fits
    simp only [codeOpenings, List.mem_cons, List.not_mem_nil, or_false] at member
    rcases member with rfl | rfl | rfl | rfl | rfl | rfl | rfl | rfl <;>
      obtain ⟨tail, same⟩ := passes_spelled_iff.mp fits <;> cases same
    · exact tag _ rfl rfl
    · exact line _ rfl rfl
    · exact block _ rfl rfl
    · exact bracket _ rfl rfl
    · cases tail with
      | nil => exact hash rfl rfl
      | cons next tail => exact comment _ _ rfl rfl
    · exact single rfl
    · exact double rfl
    · exact shell rfl

/-- Only an unknown beginning passes without a test. -/
theorem beginning_told (operand : Bool) (cs : List Char) :
    beginning operand cs = .unknown ∨ (beginning operand cs).tests ≠ [] := by
  have told : ∀ entry ∈ beginnings operand, entry.tests ≠ [] := by
    cases operand <;> decide
  unfold beginning firstOf
  cases found : (beginnings operand).find? fun entry => passes entry.tests cs with
  | none => exact .inl rfl
  | some entry => exact .inr (told entry (List.mem_of_find?_eq_some found))

/-- The beginning of a text fits it. -/
theorem beginning_passes (operand : Bool) (cs : List Char) :
    passes (beginning operand cs).tests cs = true := by
  unfold beginning firstOf
  cases found : (beginnings operand).find? fun entry => passes entry.tests cs with
  | none => rfl
  | some entry =>
      have fits := List.find?_some found
      exact fits

section

variable {tests : List (Char → Bool)} {front after : List Char}

/-- More text does not change the tests that are passed. -/
theorem passes_append (fits : passes tests front = true) (added : List Char) :
    passes tests (front ++ added) = true := by
  induction tests generalizing front with
  | nil => rfl
  | cons test tests inductionHypothesis =>
      cases front with
      | nil => cases fits
      | cons c rest =>
          obtain ⟨here, further⟩ := Bool.and_eq_true_iff.mp fits
          exact Bool.and_eq_true_iff.mpr ⟨here, inductionHypothesis further⟩

/-- A text that passes some tests is long enough for them. -/
theorem passes_length (fits : passes tests front = true) : tests.length ≤ front.length := by
  induction tests generalizing front with
  | nil => exact Nat.zero_le _
  | cons test tests inductionHypothesis =>
      cases front with
      | nil => cases fits
      | cons c rest =>
          exact Nat.succ_le_succ (inductionHypothesis (Bool.and_eq_true_iff.mp fits).2)

/-- The tests are about the first characters alone. -/
theorem passes_front (inside : tests.length ≤ front.length) :
    passes tests (front ++ after) = passes tests front := by
  induction tests generalizing front with
  | nil => rfl
  | cons test tests inductionHypothesis =>
      cases front with
      | nil => cases inside
      | cons c rest =>
          exact congrArg (test c && ·) (inductionHypothesis (Nat.le_of_succ_le_succ inside))

/-- What begins is told by the tests that it passes, whatever follows. -/
theorem firstOf_front {table : List Beginning}
    (inside : (firstOf table (front ++ after)).tests.length ≤ front.length) :
    firstOf table (front ++ after) = firstOf table front := by
  induction table with
  | nil => rfl
  | cons entry table inductionHypothesis =>
      by_cases fits : passes entry.tests (front ++ after) = true
      · rw [firstOf_cons_of_passes fits] at inside ⊢
        rw [passes_front inside] at fits
        rw [firstOf_cons_of_passes fits]
      · rw [firstOf_cons_of_not fits] at inside ⊢
        rw [firstOf_cons_of_not fun own => fits (passes_append own after)]
        exact inductionHypothesis inside

/-- A beginning within the front of a text is the beginning of the front. -/
theorem beginning_front {operand : Bool}
    (inside : (beginning operand (front ++ after)).tests.length ≤ front.length) :
    beginning operand (front ++ after) = beginning operand front := firstOf_front inside

end

end Untranslated.Php
