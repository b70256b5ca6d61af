/-
This file gives the ways of the reader as rules. What the reader gives with some fuel is what the
rules derive, so that facts about readings are proved by induction on the rules.
-/

import Untranslated.Proofs.Php.Grammar.Runs
import Untranslated.Proofs.Results

namespace Untranslated.Php.Grammar

variable {Rule : Type} {grammar : Rule → Pattern Rule} {ahead middle rest : Ahead}
  {children others : List Child}

/-- How a tree goes on by what is ahead: the pattern to read next, and the tree that it makes. -/
abbrev Continuation (Rule : Type) : Type :=
  Tree → Ahead → Option (Pattern Rule × (Tree → List Child → Tree))

/-- The reader is at a pattern, or at a tree that may grow. -/
inductive Task (Rule : Type) where
  | read (pattern : Pattern Rule)
  | grow (next : Continuation Rule) (tree : Tree)

/-- A task gives children and leaves tokens over. There is a rule for each way of the reader. -/
inductive Derives (grammar : Rule → Pattern Rule) :
    Task Rule → Ahead → List Child → Ahead → Prop where
  | nothing {ahead : Ahead} : Derives grammar (.read .nothing) ahead [] ahead
  | token {kind : Kind} {accepts : Lexeme → Bool} {wanted : String} {l : Lexeme} {rest : Ahead}
      (accepted : accepts l = true) :
      Derives grammar (.read (.token kind accepts wanted)) (l :: rest) [(.none, .leaf kind l)] rest
  | lineBreak {l : Lexeme} {rest : Ahead} (broken : l.afterBreak = true) :
      Derives grammar (.read .separator) (l :: rest) [(.none, .separator)] (l :: rest)
  | semicolon {l : Lexeme} {rest : Ahead} (plain : l.afterBreak = false)
      (is : isMark ";" l = true) :
      Derives grammar (.read .separator) (l :: rest) [(.none, .leaf .token l)] rest
  | rule {rule : Rule} {ahead rest : Ahead} {children : List Child}
      (inside : Derives grammar (.read (grammar rule)) ahead children rest) :
      Derives grammar (.read (.rule rule)) ahead children rest
  | seq {first second : Pattern Rule} {ahead middle rest : Ahead} {children others : List Child}
      (front : Derives grammar (.read first) ahead children middle)
      (back : Derives grammar (.read second) middle others rest) :
      Derives grammar (.read (.seq first second)) ahead (children ++ others) rest
  | look {choose : Ahead → Pattern Rule} {ahead rest : Ahead} {children : List Child}
      (chosen : Derives grammar (.read (choose ahead)) ahead children rest) :
      Derives grammar (.read (.look choose)) ahead children rest
  | stop {goes : Ahead → Bool} {body : Pattern Rule} {ahead : Ahead} (stops : goes ahead = false) :
      Derives grammar (.read (.many goes body)) ahead [] ahead
  | many {goes : Ahead → Bool} {body : Pattern Rule} {ahead middle rest : Ahead}
      {children others : List Child} (more : goes ahead = true)
      (item : Derives grammar (.read body) ahead children middle)
      (further : Derives grammar (.read (.many goes body)) middle others rest) :
      Derives grammar (.read (.many goes body)) ahead (children ++ others) rest
  | node {kind : Kind} {body : Pattern Rule} {ahead rest : Ahead} {children : List Child}
      (inside : Derives grammar (.read body) ahead children rest) :
      Derives grammar (.read (.node kind body)) ahead [(.none, .branch kind children)] rest
  | part {role : Role} {body : Pattern Rule} {ahead rest : Ahead} {children : List Child}
      (inside : Derives grammar (.read body) ahead children rest) :
      Derives grammar (.read (.part role body)) ahead (relabel role children) rest
  | grow {first : Pattern Rule} {next : Continuation Rule} {role : Role} {tree : Tree}
      {ahead middle rest : Ahead} {children : List Child}
      (start : Derives grammar (.read first) ahead [(role, tree)] middle)
      (larger : Derives grammar (.grow next tree) middle children rest) :
      Derives grammar (.read (.grow first next)) ahead children rest
  | several {first : Pattern Rule} {next : Continuation Rule} {ahead rest : Ahead}
      {children : List Child} (start : Derives grammar (.read first) ahead children rest)
      (noTree : ∀ child, children ≠ [child]) :
      Derives grammar (.read (.grow first next)) ahead children rest
  | grown {next : Continuation Rule} {tree : Tree} {ahead : Ahead} (stops : next tree ahead = none) :
      Derives grammar (.grow next tree) ahead [(.none, tree)] ahead
  | step {next : Continuation Rule} {tree : Tree} {ahead middle rest : Ahead}
      {continuation : Pattern Rule} {combine : Tree → List Child → Tree}
      {children others : List Child} (continues : next tree ahead = some (continuation, combine))
      (parts : Derives grammar (.read continuation) ahead children middle)
      (larger : Derives grammar (.grow next (combine tree children)) middle others rest) :
      Derives grammar (.grow next tree) ahead others rest

/-- What the reader gives for a task with this fuel. -/
def Task.run (grammar : Rule → Pattern Rule) (fuel : Nat) : Task Rule → Ahead →
    Except Failure (List Child × Ahead)
  | .read pattern, ahead => Grammar.run grammar fuel pattern ahead
  | .grow next tree, ahead => extend grammar fuel next tree ahead

/-- A token that is read is the next one ahead, and it is accepted. -/
theorem derives_token {fuel : Nat} {kind : Kind} {accepts : Lexeme → Bool} {wanted : String}
    (reads : (Task.read (.token kind accepts wanted)).run grammar (fuel + 1) ahead =
      .ok (children, rest)) :
    Derives grammar (.read (.token kind accepts wanted)) ahead children rest := by
  cases ahead with
  | nil => cases reads
  | cons l others =>
      simp only [Task.run, Grammar.run] at reads
      split at reads
      · next accepted =>
        obtain ⟨rfl, rfl⟩ := Prod.mk.inj (Except.ok.inj reads)
        exact .token accepted
      · cases reads

/-- A separator is a semicolon or the end of a stretch of code. -/
theorem derives_separator {fuel : Nat}
    (reads : (Task.read .separator).run grammar (fuel + 1) ahead = .ok (children, rest)) :
    Derives grammar (.read .separator) ahead children rest := by
  cases ahead with
  | nil => cases reads
  | cons l others =>
      simp only [Task.run, Grammar.run] at reads
      split at reads
      · next broken =>
        obtain ⟨rfl, rfl⟩ := Prod.mk.inj (Except.ok.inj reads)
        exact .lineBreak broken
      · next plain =>
        split at reads
        · next is =>
          obtain ⟨rfl, rfl⟩ := Prod.mk.inj (Except.ok.inj reads)
          exact .semicolon (Bool.eq_false_iff.mpr plain) is
        · cases reads

/-- The rules tell all that the reader does. -/
theorem derives_of_run {fuel : Nat} {task : Task Rule}
    (reads : task.run grammar fuel ahead = .ok (children, rest)) :
    Derives grammar task ahead children rest := by
  induction fuel generalizing task ahead children rest with
  | zero => cases task <;> cases reads
  | succ fuel inductionHypothesis =>
      have inner {pattern : Pattern Rule} {ahead rest : Ahead} {children : List Child}
          (reads : Grammar.run grammar fuel pattern ahead = .ok (children, rest)) :
          Derives grammar (.read pattern) ahead children rest := inductionHypothesis reads
      have growing {next : Continuation Rule} {tree : Tree} {ahead rest : Ahead}
          {children : List Child} (reads : extend grammar fuel next tree ahead = .ok (children, rest)) :
          Derives grammar (.grow next tree) ahead children rest := inductionHypothesis reads
      cases task with
      | grow next tree =>
          simp only [Task.run, extend] at reads
          split at reads
          · next stops =>
            obtain ⟨rfl, rfl⟩ := Prod.mk.inj (Except.ok.inj reads)
            exact .grown stops
          · next continuation combine continues =>
            obtain ⟨⟨parts, middle⟩, readsParts, reads⟩ := bind_eq_ok.mp reads
            exact .step continues (inner readsParts) (growing reads)
      | read pattern =>
      cases pattern with
      | nothing =>
          obtain ⟨rfl, rfl⟩ := Prod.mk.inj (Except.ok.inj reads)
          exact .nothing
      | fail wanted => cases reads
      | token kind accepts wanted => exact derives_token reads
      | separator => exact derives_separator reads
      | rule rule => exact .rule (inner reads)
      | seq first second =>
          obtain ⟨⟨front, middle⟩, readsFirst, reads⟩ := bind_eq_ok.mp reads
          obtain ⟨⟨back, last⟩, readsSecond, reads⟩ := bind_eq_ok.mp reads
          obtain ⟨rfl, rfl⟩ := Prod.mk.inj (Except.ok.inj reads)
          exact .seq (inner readsFirst) (inner readsSecond)
      | look choose => exact .look (inner reads)
      | many goes body =>
          simp only [Task.run, Grammar.run] at reads
          split at reads
          · next more =>
            obtain ⟨⟨front, middle⟩, readsItem, reads⟩ := bind_eq_ok.mp reads
            obtain ⟨⟨back, last⟩, readsOthers, reads⟩ := bind_eq_ok.mp reads
            obtain ⟨rfl, rfl⟩ := Prod.mk.inj (Except.ok.inj reads)
            exact .many more (inner readsItem) (inner readsOthers)
          · next stops =>
            obtain ⟨rfl, rfl⟩ := Prod.mk.inj (Except.ok.inj reads)
            exact .stop (Bool.eq_false_iff.mpr stops)
      | node kind body =>
          obtain ⟨⟨inside, last⟩, readsInside, reads⟩ := bind_eq_ok.mp reads
          obtain ⟨rfl, rfl⟩ := Prod.mk.inj (Except.ok.inj reads)
          exact .node (inner readsInside)
      | part role body =>
          obtain ⟨⟨inside, last⟩, readsInside, reads⟩ := bind_eq_ok.mp reads
          obtain ⟨rfl, rfl⟩ := Prod.mk.inj (Except.ok.inj reads)
          exact .part (inner readsInside)
      | grow first next =>
          obtain ⟨⟨start, middle⟩, readsFirst, reads⟩ := bind_eq_ok.mp reads
          have front := inner readsFirst
          rcases start with _ | ⟨child, _ | ⟨second, more⟩⟩
          · obtain ⟨rfl, rfl⟩ := Prod.mk.inj (Except.ok.inj reads)
            exact .several front (by simp)
          · exact .grow front (growing reads)
          · obtain ⟨rfl, rfl⟩ := Prod.mk.inj (Except.ok.inj reads)
            exact .several front (by simp)

/-- What the rules derive the reader gives, with any fuel that is large enough. -/
theorem Derives.runs {task : Task Rule} (derives : Derives grammar task ahead children rest) :
    ∃ n, ∀ fuel, n ≤ fuel → task.run grammar fuel ahead = .ok (children, rest) := by
  induction derives with
  | nothing => exact ⟨_, runsTo_nothing⟩
  | token accepted => exact ⟨_, runsTo_token accepted⟩
  | lineBreak broken => exact ⟨_, runsTo_lineBreak broken⟩
  | semicolon plain is => exact ⟨_, runsTo_separator plain is⟩
  | rule _ inside =>
      obtain ⟨_, inside⟩ := inside
      exact ⟨_, RunsTo.rule inside⟩
  | seq _ _ front back =>
      obtain ⟨_, front⟩ := front
      obtain ⟨_, back⟩ := back
      exact ⟨_, RunsTo.seq front back⟩
  | look _ chosen =>
      obtain ⟨_, chosen⟩ := chosen
      exact ⟨_, RunsTo.look rfl chosen⟩
  | stop stops => exact ⟨_, runsTo_many_stop stops⟩
  | many more _ _ item further =>
      obtain ⟨_, item⟩ := item
      obtain ⟨_, further⟩ := further
      exact ⟨_, RunsTo.many more item further⟩
  | node _ inside =>
      obtain ⟨_, inside⟩ := inside
      exact ⟨_, RunsTo.node inside⟩
  | part _ inside =>
      obtain ⟨_, inside⟩ := inside
      exact ⟨_, RunsTo.part inside⟩
  | grow _ _ start larger =>
      obtain ⟨_, start⟩ := start
      obtain ⟨_, larger⟩ := larger
      exact ⟨_, RunsTo.grow start larger⟩
  | several _ noTree start =>
      obtain ⟨_, start⟩ := start
      exact ⟨_, RunsTo.several start noTree⟩
  | grown stops => exact ⟨_, growsTo_stop stops⟩
  | step continues _ _ parts larger =>
      obtain ⟨_, parts⟩ := parts
      obtain ⟨_, larger⟩ := larger
      exact ⟨_, GrowsTo.step continues parts larger⟩

/-- A pattern reads children, with some fuel. -/
def Reads (grammar : Rule → Pattern Rule) (pattern : Pattern Rule) (ahead : Ahead)
    (children : List Child) (rest : Ahead) : Prop :=
  ∃ fuel, run grammar fuel pattern ahead = .ok (children, rest)

/-- A pattern reads what the rules derive for it. -/
theorem reads_iff {pattern : Pattern Rule} : Reads grammar pattern ahead children rest ↔
    Derives grammar (.read pattern) ahead children rest := by
  constructor
  · rintro ⟨fuel, reads⟩
    have runs : (Task.read pattern).run grammar fuel ahead = .ok (children, rest) := reads
    exact derives_of_run runs
  · intro derives
    obtain ⟨n, runs⟩ := derives.runs
    exact ⟨n, runs n (Nat.le_refl n)⟩

section

variable {first second body : Pattern Rule}

/-- Two patterns in a row read the children of the first and then those of the second. -/
theorem Reads.seq (reads : Reads grammar (first ++ second) ahead children rest) :
    ∃ before middle after, children = before ++ after ∧ Reads grammar first ahead before middle ∧
      Reads grammar second middle after rest := by
  have derives : Derives grammar (.read (.seq first second)) ahead children rest :=
    reads_iff.mp reads
  cases derives with
  | seq front back => exact ⟨_, _, _, rfl, reads_iff.mpr front, reads_iff.mpr back⟩

/-- The empty pattern reads no children. -/
theorem Reads.nothing (reads : Reads grammar .nothing ahead children rest) : children = [] := by
  cases reads_iff.mp reads with
  | nothing => rfl

/-- A pattern chosen by what is ahead reads what the chosen one reads. -/
theorem Reads.look {choose : Ahead → Pattern Rule}
    (reads : Reads grammar (.look choose) ahead children rest) :
    Reads grammar (choose ahead) ahead children rest := by
  cases reads_iff.mp reads with
  | look chosen => exact reads_iff.mpr chosen

/-- A token pattern reads the next token. -/
theorem Reads.token {kind : Kind} {accepts : Lexeme → Bool} {wanted : String}
    (reads : Reads grammar (.token kind accepts wanted) ahead children rest) :
    ∃ l, accepts l = true ∧ ahead = l :: rest ∧ children = [(.none, .leaf kind l)] := by
  cases reads_iff.mp reads with
  | token accepted => exact ⟨_, accepted, rfl, rfl⟩

/-- A part reads the children of its body and gives them a role. -/
theorem Reads.part {role : Role} (reads : Reads grammar (.part role body) ahead children rest) :
    ∃ inner, children = relabel role inner ∧ Reads grammar body ahead inner rest := by
  cases reads_iff.mp reads with
  | part inside => exact ⟨_, rfl, reads_iff.mpr inside⟩

/-- A node reads the children of its body and puts a tree around them. -/
theorem Reads.node {kind : Kind} (reads : Reads grammar (.node kind body) ahead children rest) :
    ∃ inner, children = [(.none, .branch kind inner)] ∧ Reads grammar body ahead inner rest := by
  cases reads_iff.mp reads with
  | node inside => exact ⟨_, rfl, reads_iff.mpr inside⟩

end

end Untranslated.Php.Grammar
