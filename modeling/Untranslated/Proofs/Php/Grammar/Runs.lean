/-
This file proves how the reader goes through each pattern, with any fuel that is large enough.
-/

import Untranslated.Php.Grammar.Statement

namespace Untranslated.Php.Grammar

variable {Rule : Type} {grammar : Rule → Pattern Rule} {n m : Nat} {ahead middle rest : Ahead}
  {children others : List Child}

/-- A pattern reads these children, as soon as there is so much fuel. -/
def RunsTo (grammar : Rule → Pattern Rule) (n : Nat) (pattern : Pattern Rule) (ahead : Ahead)
    (children : List Child) (rest : Ahead) : Prop :=
  ∀ fuel, n ≤ fuel → run grammar fuel pattern ahead = .ok (children, rest)

/-- A tree grows to these children, as soon as there is so much fuel. -/
def GrowsTo (grammar : Rule → Pattern Rule) (n : Nat)
    (next : Tree → Ahead → Option (Pattern Rule × (Tree → List Child → Tree))) (tree : Tree)
    (ahead : Ahead) (children : List Child) (rest : Ahead) : Prop :=
  ∀ fuel, n ≤ fuel → extend grammar fuel next tree ahead = .ok (children, rest)

section

attribute [local simp] run extend

variable {first second body : Pattern Rule}

/-- More fuel does not hurt. -/
theorem RunsTo.mono (runs : RunsTo grammar n body ahead children rest) (le : n ≤ m) :
    RunsTo grammar m body ahead children rest :=
  fun fuel enough => runs fuel (Nat.le_trans le enough)

/-- The empty pattern reads nothing. -/
theorem runsTo_nothing : RunsTo grammar 1 .nothing ahead [] ahead := by
  intro fuel enough
  obtain ⟨fuel, rfl⟩ := Nat.exists_eq_succ_of_ne_zero (by omega : fuel ≠ 0)
  rfl

/-- An accepted token is read as a leaf. -/
theorem runsTo_token {kind : Kind} {accepts : Lexeme → Bool} {wanted : String} {l : Lexeme}
    (accepted : accepts l = true) :
    RunsTo grammar 1 (.token kind accepts wanted) (l :: rest) [(.none, .leaf kind l)] rest := by
  intro fuel enough
  obtain ⟨fuel, rfl⟩ := Nat.exists_eq_succ_of_ne_zero (by omega : fuel ≠ 0)
  simp [accepted]

/-- A semicolon is read as a separator. -/
theorem runsTo_separator {l : Lexeme} (plain : l.afterBreak = false) (is : isMark ";" l = true) :
    RunsTo grammar 1 .separator (l :: rest) [(.none, .leaf .token l)] rest := by
  intro fuel enough
  obtain ⟨fuel, rfl⟩ := Nat.exists_eq_succ_of_ne_zero (by omega : fuel ≠ 0)
  simp [plain, is]

/-- A statement ends with a stretch of code, and then no token is read. -/
theorem runsTo_lineBreak {l : Lexeme} (broken : l.afterBreak = true) :
    RunsTo grammar 1 .separator (l :: rest) [(.none, .separator)] (l :: rest) := by
  intro fuel enough
  obtain ⟨fuel, rfl⟩ := Nat.exists_eq_succ_of_ne_zero (by omega : fuel ≠ 0)
  simp [broken]

/-- A rule reads what its pattern reads. -/
theorem RunsTo.rule {rule : Rule} (runs : RunsTo grammar n (grammar rule) ahead children rest) :
    RunsTo grammar (n + 1) (.rule rule) ahead children rest := by
  intro fuel enough
  obtain ⟨fuel, rfl⟩ := Nat.exists_eq_succ_of_ne_zero (by omega : fuel ≠ 0)
  exact runs fuel (by omega)

/-- Two patterns in a row read their children in a row. -/
theorem RunsTo.seq (runs : RunsTo grammar n first ahead children middle)
    (further : RunsTo grammar m second middle others rest) :
    RunsTo grammar (n + m + 1) (first ++ second) ahead (children ++ others) rest := by
  intro fuel enough
  obtain ⟨fuel, rfl⟩ := Nat.exists_eq_succ_of_ne_zero (by omega : fuel ≠ 0)
  have readsFirst := runs fuel (by omega)
  have readsSecond := further fuel (by omega)
  change run grammar (fuel + 1) (.seq first second) ahead = _
  simp [readsFirst, readsSecond, bind, Except.bind, pure, Except.pure]

/-- A pattern chosen by what is ahead reads what the chosen one reads. -/
theorem RunsTo.look {choose : Ahead → Pattern Rule} (is : choose ahead = body)
    (runs : RunsTo grammar n body ahead children rest) :
    RunsTo grammar (n + 1) (.look choose) ahead children rest := by
  intro fuel enough
  obtain ⟨fuel, rfl⟩ := Nat.exists_eq_succ_of_ne_zero (by omega : fuel ≠ 0)
  rw [← is] at runs
  exact runs fuel (by omega)

/-- A repetition stops where it may not go on. -/
theorem runsTo_many_stop {goes : Ahead → Bool} (stops : goes ahead = false) :
    RunsTo grammar 1 (.many goes body) ahead [] ahead := by
  intro fuel enough
  obtain ⟨fuel, rfl⟩ := Nat.exists_eq_succ_of_ne_zero (by omega : fuel ≠ 0)
  simp [stops]

/-- A repetition reads its body and then goes on. -/
theorem RunsTo.many {goes : Ahead → Bool} (more : goes ahead = true)
    (runs : RunsTo grammar n body ahead children middle)
    (further : RunsTo grammar m (.many goes body) middle others rest) :
    RunsTo grammar (n + m + 1) (.many goes body) ahead (children ++ others) rest := by
  intro fuel enough
  obtain ⟨fuel, rfl⟩ := Nat.exists_eq_succ_of_ne_zero (by omega : fuel ≠ 0)
  have readsFirst := runs fuel (by omega)
  have readsOthers := further fuel (by omega)
  simp [more, readsFirst, readsOthers, bind, Except.bind, pure, Except.pure]

/-- A node puts a tree around the children of its body. -/
theorem RunsTo.node {kind : Kind} (runs : RunsTo grammar n body ahead children rest) :
    RunsTo grammar (n + 1) (.node kind body) ahead [(.none, .branch kind children)] rest := by
  intro fuel enough
  obtain ⟨fuel, rfl⟩ := Nat.exists_eq_succ_of_ne_zero (by omega : fuel ≠ 0)
  have reads := runs fuel (by omega)
  simp [reads, bind, Except.bind, pure, Except.pure]

/-- A part gives the children of its body a role. -/
theorem RunsTo.part {role : Role} (runs : RunsTo grammar n body ahead children rest) :
    RunsTo grammar (n + 1) (.part role body) ahead (relabel role children) rest := by
  intro fuel enough
  obtain ⟨fuel, rfl⟩ := Nat.exists_eq_succ_of_ne_zero (by omega : fuel ≠ 0)
  have reads := runs fuel (by omega)
  simp [reads, bind, Except.bind, pure, Except.pure]

variable {next : Tree → Ahead → Option (Pattern Rule × (Tree → List Child → Tree))} {role : Role}
  {tree : Tree}

/-- A tree is read and then grows. -/
theorem RunsTo.grow (runs : RunsTo grammar n first ahead [(role, tree)] middle)
    (grows : GrowsTo grammar m next tree middle others rest) :
    RunsTo grammar (n + m + 1) (.grow first next) ahead others rest := by
  intro fuel enough
  obtain ⟨fuel, rfl⟩ := Nat.exists_eq_succ_of_ne_zero (by omega : fuel ≠ 0)
  have reads := runs fuel (by omega)
  have larger := grows fuel (by omega)
  simp [reads, larger, bind, Except.bind]

/-- What is no single tree does not grow. -/
theorem RunsTo.several (runs : RunsTo grammar n first ahead children rest)
    (noTree : ∀ child, children ≠ [child]) :
    RunsTo grammar (n + 1) (.grow first next) ahead children rest := by
  intro fuel enough
  obtain ⟨fuel, rfl⟩ := Nat.exists_eq_succ_of_ne_zero (by omega : fuel ≠ 0)
  have reads := runs fuel (by omega)
  rcases children with _ | ⟨child, _ | ⟨second, more⟩⟩
  · simp [reads, bind, Except.bind, pure, Except.pure]
  · exact absurd rfl (noTree child)
  · simp [reads, bind, Except.bind, pure, Except.pure]

/-- A tree that does not go on is done. -/
theorem growsTo_stop (stops : next tree ahead = none) :
    GrowsTo grammar 1 next tree ahead [(.none, tree)] ahead := by
  intro fuel enough
  obtain ⟨fuel, rfl⟩ := Nat.exists_eq_succ_of_ne_zero (by omega : fuel ≠ 0)
  simp [stops]

/-- A tree takes in what is read behind it and grows on. -/
theorem GrowsTo.step {combine : Tree → List Child → Tree}
    (continues : next tree ahead = some (body, combine))
    (runs : RunsTo grammar n body ahead children middle)
    (grows : GrowsTo grammar m next (combine tree children) middle others rest) :
    GrowsTo grammar (n + m + 1) next tree ahead others rest := by
  intro fuel enough
  obtain ⟨fuel, rfl⟩ := Nat.exists_eq_succ_of_ne_zero (by omega : fuel ≠ 0)
  have reads := runs fuel (by omega)
  have larger := grows fuel (by omega)
  simp [continues, reads, larger, bind, Except.bind]

/-- An optional pattern is skipped where it does not begin. -/
theorem runsTo_optional_skip {test : Ahead → Bool} (none : test ahead = false) :
    RunsTo grammar 2 (optional test body) ahead [] ahead :=
  RunsTo.look (by rw [none]; rfl) runsTo_nothing

/-- An optional pattern is read where it begins. -/
theorem RunsTo.optional {test : Ahead → Bool} (some : test ahead = true)
    (runs : RunsTo grammar n body ahead children rest) :
    RunsTo grammar (n + 1) (optional test body) ahead children rest :=
  RunsTo.look (by rw [some]; rfl) runs

/-- The first of two patterns is read where its test holds. -/
theorem RunsTo.eitherFirst {test : Ahead → Bool} (is : test ahead = true)
    (runs : RunsTo grammar n first ahead children rest) :
    RunsTo grammar (n + 1) (either test first second) ahead children rest :=
  RunsTo.look (by rw [is]; rfl) runs

/-- The second of two patterns is read where the test fails. -/
theorem RunsTo.eitherSecond {test : Ahead → Bool} (is : test ahead = false)
    (runs : RunsTo grammar n second ahead children rest) :
    RunsTo grammar (n + 1) (either test first second) ahead children rest :=
  RunsTo.look (by rw [is]; rfl) runs

/-- A list of one item. -/
theorem RunsTo.listed {closing : String} (runs : RunsTo grammar n body ahead children rest)
    (last : atMark "," rest = false) :
    RunsTo grammar (n + 5) (listed closing body) ahead children rest := by
  have comma : innerComma closing rest = false := by rw [innerComma, last, Bool.false_and]
  have more : RunsTo grammar 1 (.many (innerComma closing) (mark "," ++ body)) rest [] rest :=
    runsTo_many_stop comma
  have ending : RunsTo grammar 2 (Grammar.optional (atMark ",") (mark ",")) rest [] rest :=
    runsTo_optional_skip last
  have whole := (runs.seq more).seq ending
  rw [List.append_nil, List.append_nil] at whole
  exact whole

/-- A mark is read as a leaf. -/
theorem runsTo_mark {spelling : String} {l : Lexeme} (is : isMark spelling l = true) :
    RunsTo grammar 1 (mark spelling) (l :: rest) [(.none, .leaf .token l)] rest :=
  runsTo_token is

end

end Untranslated.Php.Grammar
