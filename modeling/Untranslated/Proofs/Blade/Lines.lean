/-
This file counts the newlines of a lowered template.
Only the blanks around the sign of a bound attribute can lose some.
-/

import Untranslated.Proofs.Blade.Segments

namespace Untranslated.Blade

open Text (isWordChar)

/-- The number of newlines in a text. -/
def lines (cs : List Char) : Nat := cs.count '\n'

@[simp] theorem lines_nil : lines [] = 0 := rfl

@[simp] theorem lines_append (first second : List Char) :
    lines (first ++ second) = lines first + lines second := List.count_append

@[simp] theorem lines_cons (c : Char) (rest : List Char) :
    lines (c :: rest) = lines rest + if c = '\n' then 1 else 0 := by
  simp [lines, List.count_cons]

/-- A text of characters other than newlines has no newline. -/
theorem lines_of_all {keep : Char → Bool} (newline : keep '\n' = false) {cs : List Char}
    (kept : ∀ c ∈ cs, keep c = true) : lines cs = 0 :=
  List.count_eq_zero.mpr fun member => by simp [kept _ member] at newline

/-- The newlines around the sign of an attribute. -/
def Binding.droppedLines (binding : Binding) : Nat :=
  lines binding.beforeSign + lines binding.afterSign

/-- The bound attributes of a tag, and those in its pieces. -/
def Tag.bindings (inPiece : List Char → List Binding) (tag : Tag) : List Binding :=
  inPiece tag.start ++ tag.bound.flatMap fun (binding, piece) => binding :: inPiece piece

def Segment.bindings (inPiece : List Char → List Binding) : Segment → List Binding
  | .component _ tag => (Tag.ofChars tag).bindings inPiece
  | _ => []

/-- The bound attributes that are replaced with so much depth. -/
def bindingsToDepth (extra : List Text) : Nat → List Char → List Binding
  | 0, _ => []
  | depth + 1, cs => (segments extra cs).flatMap (Segment.bindings (bindingsToDepth extra depth))

/-- The bound attributes that are replaced in a template, at any depth of tags in tags. -/
def replacedBindings (extra : List Text) (template : List Char) : List Binding :=
  bindingsToDepth extra (template.length + 1) template

/-- The newlines that are lost with bound attributes. -/
def droppedLines : List Binding → Nat
  | [] => 0
  | binding :: rest => binding.droppedLines + droppedLines rest

@[simp] theorem droppedLines_nil : droppedLines [] = 0 := rfl

@[simp] theorem droppedLines_cons (binding : Binding) (rest : List Binding) :
    droppedLines (binding :: rest) = binding.droppedLines + droppedLines rest := rfl

@[simp] theorem droppedLines_append (first second : List Binding) :
    droppedLines (first ++ second) = droppedLines first + droppedLines second := by
  induction first with
  | nil => simp
  | cons binding rest inductionHypothesis => simp [inductionHypothesis, Nat.add_assoc]

/-- No newline is lost just when no sign of an attribute has one next to it. -/
theorem droppedLines_eq_zero {bindings : List Binding} :
    droppedLines bindings = 0 ↔
      ∀ binding ∈ bindings, '\n' ∉ binding.beforeSign ∧ '\n' ∉ binding.afterSign := by
  induction bindings with
  | nil => simp
  | cons binding rest inductionHypothesis =>
      simp only [droppedLines_cons, Nat.add_eq_zero_iff, inductionHypothesis, List.mem_cons,
        forall_eq_or_imp, Binding.droppedLines, lines, List.count_eq_zero]

@[simp] theorem code_lines (inside : List Char) : lines (code inside) = lines inside := by
  unfold code
  simp

theorem wordChar_newline : isWordChar '\n' = false := by decide +kernel

theorem attributeCharacter_newline : isAttributeCharacter '\n' = false := by decide +kernel

/-- What stands around the code of a directive has no newline. -/
theorem codeAround_lines {name : List Char} (word : ∀ c ∈ name, isWordChar c = true) :
    lines (codeAround name).1 = 0 ∧ lines (codeAround name).2 = 0 := by
  have noLine : lines name = 0 := lines_of_all wordChar_newline word
  unfold codeAround
  split <;> simp [noLine]

/-- A directive keeps the newlines of its arguments. -/
theorem directiveCode_lines {name : List Char} (word : ∀ c ∈ name, isWordChar c = true)
    (inside : List Char) : lines (directiveCode name inside) = lines inside := by
  obtain ⟨before, after⟩ := codeAround_lines word
  simp [directiveCode, before, after]

/-- The newlines of a bound attribute are those of its expression and those next to its sign. -/
theorem Binding.Leads.lines {binding : Binding} {cs : List Char} (leads : binding.Leads cs) :
    lines binding.written = binding.droppedLines + lines binding.expression := by
  have noLine : Blade.lines binding.name = 0 := lines_of_all attributeCharacter_newline leads.name
  have mark : binding.mark ≠ '\n' := by
    intro same
    have quote := leads.mark
    rw [same] at quote
    exact absurd quote (by decide)
  simp [Binding.written, Binding.droppedLines, noLine, mark, Nat.add_assoc]

section

variable {lowerPiece : List Char → List Char} {inPiece : List Char → List Binding}

/-- A tag loses the newlines around the signs of its attributes, and those that its pieces lose. -/
theorem Tag.lowered_lines (cs : List Char)
    (pieces : ∀ piece, piece.length ≤ cs.length →
      lines (lowerPiece piece) + droppedLines (inPiece piece) = lines piece) :
    lines ((Tag.ofChars cs).lowered lowerPiece) +
      droppedLines ((Tag.ofChars cs).bindings inPiece) = lines cs := by
  have start := pieces _ (Tag.start_length cs)
  have bound (entries : List (Binding × List Char))
      (own : ∀ entry ∈ entries, entry ∈ (Tag.ofChars cs).bound) :
      lines (entries.flatMap fun entry =>
          code ("echo (".toList ++ entry.1.expression ++ ");".toList) ++ lowerPiece entry.2) +
        droppedLines (entries.flatMap fun entry => entry.1 :: inPiece entry.2) =
      lines (entries.flatMap fun entry => entry.1.written ++ entry.2) := by
    induction entries with
    | nil => rfl
    | cons entry rest inductionHypothesis =>
        have others := inductionHypothesis fun other member =>
          own other (List.mem_cons_of_mem _ member)
        have member := own entry List.mem_cons_self
        obtain ⟨_, leads⟩ := Tag.ofChars_leads cs entry member
        have piece := pieces entry.2 (Tag.piece_length member)
        have written := leads.lines
        have echo : lines ("echo (".toList ++ entry.1.expression ++ ");".toList) =
            lines entry.1.expression := by simp
        simp only [List.flatMap_cons, lines_append, code_lines, droppedLines_append,
          droppedLines_cons] at others echo ⊢
        omega
  have total := bound _ fun _ member => member
  have written := congrArg lines (Tag.ofChars_written cs)
  simp only [Tag.written, lines_append] at written
  simp only [Tag.lowered, Tag.bindings, lines_append, droppedLines_append]
  omega

/-- A segment loses what its tag loses. -/
theorem Segment.lowered_lines {segment : Segment} (proper : segment.Proper)
    (pieces : ∀ piece, piece.length < segment.written.length →
      lines (lowerPiece piece) + droppedLines (inPiece piece) = lines piece) :
    lines (segment.lowered lowerPiece) + droppedLines (segment.bindings inPiece) =
      lines segment.written := by
  cases segment with
  | component name tag =>
      have inner := Tag.lowered_lines tag fun piece shorter => pieces piece (by
        unfold Segment.written
        simp
        omega)
      unfold Segment.lowered Segment.written Segment.bindings
      simp
      omega
  | comment body =>
      unfold Segment.lowered Segment.written Segment.bindings
      simp [lines]
  | call name arguments =>
      have noLine : lines name = 0 := lines_of_all wordChar_newline proper
      unfold Segment.lowered Segment.written Segment.bindings
      simp [directiveCode_lines proper, noLine]
  | bare name =>
      have noLine : lines name = 0 := lines_of_all wordChar_newline proper
      unfold Segment.lowered Segment.written Segment.bindings
      simp [noLine]
  | codeBlock body ending | verbatim body ending =>
      unfold Segment.lowered Segment.written Segment.bindings
      rcases proper with rfl | rfl <;> simp
  | raw expression =>
      unfold Segment.lowered Segment.written Segment.bindings rawCode
      simp
  | echo expression =>
      unfold Segment.lowered Segment.written Segment.bindings echoCode
      simp
  | plain c | escaped shown | doubledSign | unknown name =>
      unfold Segment.lowered Segment.written Segment.bindings
      simp

end

/-- At each depth, the newlines of the result and those that are lost add up. -/
theorem lowerToDepth_lines (extra : List Text) (depth : Nat) (cs : List Char)
    (deep : cs.length < depth) :
    lines (lowerToDepth extra depth cs) + droppedLines (bindingsToDepth extra depth cs) =
      lines cs := by
  induction depth generalizing cs with
  | zero => omega
  | succ depth inductionHypothesis =>
      have every (row : List Segment) (own : ∀ segment ∈ row, segment ∈ segments extra cs) :
          lines (row.flatMap (Segment.lowered (lowerToDepth extra depth))) +
            droppedLines (row.flatMap (Segment.bindings (bindingsToDepth extra depth))) =
          lines (row.flatMap Segment.written) := by
        induction row with
        | nil => rfl
        | cons segment rest others =>
            have member := own segment List.mem_cons_self
            have length := segments_length member
            have first := Segment.lowered_lines (segments_proper extra cs segment member)
              fun piece shorter => inductionHypothesis piece (by omega)
            have later := others fun other member => own other (List.mem_cons_of_mem _ member)
            simp only [List.flatMap_cons, lines_append, droppedLines_append]
            omega
      have total := every _ fun _ member => member
      rw [segments_written] at total
      exact total

/-- The lowered text has the newlines of the template, save those that the blanks around the sign of
a replaced attribute had. It has all of them just when there is none. -/
theorem lower_newlines (extra : List Text) (template : List Char) :
    (lower extra template).count '\n' + droppedLines (replacedBindings extra template) =
        template.count '\n' ∧
      ((lower extra template).count '\n' = template.count '\n' ↔
        ∀ binding ∈ replacedBindings extra template,
          '\n' ∉ binding.beforeSign ∧ '\n' ∉ binding.afterSign) := by
  have total : (lower extra template).count '\n' +
      droppedLines (replacedBindings extra template) = template.count '\n' :=
    lowerToDepth_lines extra (template.length + 1) template (Nat.lt_succ_self _)
  refine ⟨total, ?_⟩
  rw [← droppedLines_eq_zero]
  omega

/-- A newline in front of the sign is lost. -/
theorem lower_newlines_lost :
    (lower [] "<x-a :b\n=\"c\">".toList).count '\n' ≠ "<x-a :b\n=\"c\">".toList.count '\n' := by
  decide +kernel

end Untranslated.Blade
