/-
This file proves that the line of a terminal with a progress bar shows the last step and nothing
else, and that it is blank whenever the bar is cleared.
-/

import Untranslated.CommandLine.ProgressBar
import Mathlib.Data.Nat.Digits.Defs
import Mathlib.Data.Rat.Floor

namespace Untranslated.CommandLine

open Scan (Phase)

/-- The cells of a line that have been written, from the first column on. The cursor stands in them
or right behind them. -/
structure Line where
  cells : Text
  cursor : Nat
  within : cursor ≤ cells.length

/-- An empty line. -/
def Line.new : Line := ⟨[], 0, Nat.le_refl 0⟩

/-- A carriage return moves the cursor to the first column. Any other character takes the cell at
the cursor. -/
def Line.put (line : Line) (c : CodePoint) : Line :=
  if c.is '\r' then ⟨line.cells, 0, Nat.zero_le _⟩
  else
    ⟨line.cells.take line.cursor ++ c :: line.cells.drop (line.cursor + 1), line.cursor + 1, by
      have within := line.within
      simp only [List.length_append, List.length_take, List.length_cons]
      omega⟩

/-- The line after a text. -/
def Line.write (line : Line) (text : Text) : Line := text.foldl Line.put line

/-- Without a carriage return, each character takes a cell. -/
def IsPlain (text : Text) : Prop := ∀ c ∈ text, c.is '\r' = false

section

variable {line : Line} {text : Text}

/-- Texts may be written one after the other. -/
theorem Line.write_append (line : Line) (first second : Text) :
    line.write (first ++ second) = (line.write first).write second :=
  List.foldl_append

/-- Text without a carriage return takes as many cells as it has characters. -/
theorem Line.write_plain (line : Line) (plain : IsPlain text) :
    (line.write text).cells =
        line.cells.take line.cursor ++ text ++ line.cells.drop (line.cursor + text.length) ∧
      (line.write text).cursor = line.cursor + text.length := by
  induction text generalizing line with
  | nil => simp [write]
  | cons c rest inductionHypothesis =>
      obtain ⟨own, others⟩ := List.forall_mem_cons.mp plain
      have within := line.within
      have front : (line.cells.take line.cursor).length = line.cursor := by
        simpa using within
      have here : (line.put c).cells =
          line.cells.take line.cursor ++ c :: line.cells.drop (line.cursor + 1) := by
        rw [put, if_neg (by simp [own])]
      have next : (line.put c).cursor = line.cursor + 1 := by
        rw [put, if_neg (by simp [own])]
      have taken : (line.put c).cells.take (line.cursor + 1) =
          line.cells.take line.cursor ++ [c] := by
        rw [here, List.take_append, front]
        simp
      have left : (line.put c).cells.drop (line.cursor + 1 + rest.length) =
          line.cells.drop (line.cursor + (rest.length + 1)) := by
        rw [here, List.drop_append, front, List.drop_eq_nil_of_le (by rw [front]; omega)]
        have beyond : line.cursor + 1 + rest.length - line.cursor = rest.length + 1 := by omega
        rw [beyond, List.nil_append, List.drop_succ_cons, List.drop_drop]
        congr 1
        omega
      have written := inductionHypothesis (line.put c) others
      rw [next, taken, left] at written
      simp only [write, List.foldl_cons, List.length_cons]
      refine ⟨written.1.trans (by simp), written.2.trans (by omega)⟩

/-- Text that begins at the start of a line replaces all cells that it reaches. -/
theorem Line.write_lineStart (line : Line) (plain : IsPlain text) :
    (line.write (atLineStart text)).cells = text ++ line.cells.drop text.length ∧
      (line.write (atLineStart text)).cursor = text.length := by
  have start : line.write (atLineStart text) =
      Line.write ⟨line.cells, 0, Nat.zero_le _⟩ text := rfl
  rw [start]
  simpa using Line.write_plain ⟨line.cells, 0, Nat.zero_le _⟩ plain

end

/-- A natural number is shown by its decimal digits. -/
theorem ofInt_digits (n : Nat) : Text.ofInt n = (Nat.toDigits 10 n).map .ofChar := by
  have decimal : Text.ofInt n = Text.ofNat n := rfl
  simp [decimal, Text.ofNat, Text.ofString, Text.ofChars]

/-- A smaller number is not shown wider. -/
theorem length_ofInt_le {m n : Nat} (below : m ≤ n) :
    (Text.ofInt m).length ≤ (Text.ofInt n).length := by
  simp only [ofInt_digits, List.length_map]
  have filled : 0 < (Nat.toDigits 10 n).length := Nat.length_toDigits_pos
  have bound := (Nat.length_toDigits_le_iff (n := n) (by decide : 1 < 10) filled).mp (Nat.le_refl _)
  exact (Nat.length_toDigits_le_iff (by decide) filled).mpr (Nat.lt_of_le_of_lt below bound)

/-- Numbers are shown without carriage returns. -/
theorem isPlain_ofInt (n : Nat) : IsPlain (Text.ofInt n) := by
  rw [ofInt_digits]
  intro c member
  obtain ⟨digit, inside, rfl⟩ := List.mem_map.mp member
  have isDigit := Nat.isDigit_of_mem_toDigits (by decide) (by decide) inside
  refine beq_eq_false_iff_ne.mpr fun carriage => ?_
  obtain rfl : digit = '\r' := Char.toNat_inj.mp carriage
  cases isDigit

theorem IsPlain.append {first second : Text} (plain : IsPlain first) (others : IsPlain second) :
    IsPlain (first ++ second) := by
  intro c member
  exact (List.mem_append.mp member).elim (plain c) (others c)

/-- A repeated character is plain if it is no carriage return. -/
theorem isPlain_replicate {c : Char} (other : (CodePoint.ofChar c).is '\r' = false) (count : Nat) :
    IsPlain (List.replicate count (.ofChar c)) := by
  intro own member
  rw [List.eq_of_mem_replicate member]
  exact other

/-- The steps that are done are as wide as their total, and the bar stands in brackets. A part of it
is filled from the left, rounded down to whole cells. -/
def IsDrawing (width current total : Int) (line : Text) : Prop :=
  ∃ (blanks : Nat) (filled : Int),
    line = List.replicate (blanks + 1) (.ofChar ' ') ++ Text.ofInt current ++ Text.ofString "/" ++
      Text.ofInt total ++ Text.ofString " [" ++ (cells '=' filled ++ cells ' ' (width - filled)) ++
      Text.ofString "]" ∧
    blanks + (Text.ofInt current).length = (Text.ofInt total).length ∧
    filled = ⌊(width * current : ℚ) / total⌋ ∧ 0 ≤ filled ∧ filled ≤ width

/-- The steps of a total that a bar of this width can show. -/
structure IsStep (width current total : Int) : Prop where
  wide : 0 ≤ width
  started : 1 ≤ current
  inside : current ≤ total

section

variable {width current total : Int} {line : Text}

/-- The filled cells and the others make up the width of the bar. -/
theorem length_cells {filled : Int} (least : 0 ≤ filled) (most : filled ≤ width) :
    (cells '=' filled ++ cells ' ' (width - filled)).length = width.toNat := by
  simp only [cells, List.length_append, List.length_replicate]
  omega

/-- The length of a drawn line. -/
def drawingLength (width total : Int) : Nat := width.toNat + 2 * (Text.ofInt total).length + 5

/-- All drawings of one total are of one length. -/
theorem IsDrawing.length (drawing : IsDrawing width current total line) :
    line.length = drawingLength width total := by
  obtain ⟨blanks, filled, rfl, number, -, least, most⟩ := drawing
  have slash : (Text.ofString "/").length = 1 := rfl
  have opening : (Text.ofString " [").length = 2 := rfl
  have closing : (Text.ofString "]").length = 1 := rfl
  simp only [List.length_append, List.length_replicate, slash, opening, closing] at number ⊢
  rw [← List.length_append, length_cells least most, drawingLength]
  omega

/-- The numbers of a step are natural ones. -/
theorem IsStep.exists_natCast (step : IsStep width current total) :
    ∃ (w m n : Nat), width = w ∧ current = m ∧ total = n ∧ m ≤ n ∧ 0 < n := by
  obtain ⟨wide, started, inside⟩ := step
  exact ⟨width.toNat, current.toNat, total.toNat, by omega, by omega, by omega, by omega,
    by omega⟩

/-- A drawing has no carriage return. -/
theorem IsDrawing.plain (drawing : IsDrawing width current total line)
    (step : IsStep width current total) : IsPlain line := by
  obtain ⟨w, m, n, rfl, rfl, rfl, -, -⟩ := step.exists_natCast
  obtain ⟨blanks, filled, rfl, -⟩ := drawing
  have mark {text : String} (plain : (Text.ofString text).all (!·.is '\r') = true) :
      IsPlain (Text.ofString text) := by
    simpa [IsPlain] using plain
  have blank (count : Nat) : IsPlain (List.replicate count (.ofChar ' ')) :=
    isPlain_replicate (by decide) count
  have full (count : Nat) : IsPlain (List.replicate count (.ofChar '=')) :=
    isPlain_replicate (by decide) count
  exact ((((((blank _).append (isPlain_ofInt m)).append (mark (by decide))).append
    (isPlain_ofInt n)).append (mark (by decide))).append ((full _).append (blank _))).append
      (mark (by decide))

/-- The line of a bar draws its step. -/
theorem isDrawing_line {bar : ProgressBar} (step : IsStep bar.width current total) :
    IsDrawing bar.width current total (bar.line current total) := by
  obtain ⟨w, m, n, isWidth, rfl, rfl, below, positive⟩ := step.exists_natCast
  have narrower : (Text.ofInt m).length ≤ (Text.ofInt n).length := length_ofInt_le below
  have quotient : ((w : Int) * m).tdiv n = (w : Int) * m / n :=
    Int.tdiv_eq_ediv_of_nonneg (by positivity)
  have floor : ⌊((w : Int) * (m : Int) : ℚ) / (n : Int)⌋ = (w : Int) * m / n := by
    have whole := Rat.floor_intCast_div_natCast ((w : Int) * m) n
    push_cast at whole ⊢
    exact whole
  refine ⟨(Text.ofInt n).length - (Text.ofInt m).length, (w : Int) * m / n, ?_, by omega, ?_, ?_,
    ?_⟩
  · have blank : Text.ofString " " = [.ofChar ' '] := rfl
    rw [ProgressBar.line, aligned, isWidth, quotient, blank, List.replicate_succ]
    simp
  · rw [isWidth, floor]
  · positivity
  · rw [isWidth]
    refine Int.ediv_le_of_le_mul (by exact_mod_cast positive) ?_
    exact_mod_cast Nat.mul_le_mul_left w below

end

/-- What a bar is told. -/
inductive Signal where
  | progress (phase : Phase) (current total : Int)
  | clear

/-- What is written for a signal, and the bar after it. -/
def ProgressBar.answer (bar : ProgressBar) : Signal → Text × ProgressBar
  | .progress phase current total => bar.draw phase current total
  | .clear => bar.clear

/-- A bar and the line that it is written to. -/
structure Terminal where
  bar : ProgressBar
  line : Line

/-- A bar that has drawn nothing, and an empty line. -/
def Terminal.new (width : Int) : Terminal := ⟨.new width, .new⟩

/-- The terminal after a signal. -/
def Terminal.step (terminal : Terminal) (signal : Signal) : Terminal :=
  let (text, bar) := terminal.bar.answer signal
  ⟨bar, terminal.line.write text⟩

/-- The terminal after some signals. -/
def Terminal.run (terminal : Terminal) (signals : List Signal) : Terminal :=
  signals.foldl Terminal.step terminal

/-- Scanning goes through the steps of one total. Other phases may count as they like. -/
def Signal.Counts (total : Int) : Signal → Prop
  | .progress .scanning current own => own = total ∧ 1 ≤ current ∧ current ≤ total
  | _ => True

/-- The step that is shown after a signal, if one was shown before it. -/
def Signal.shown (shown : Option Int) : Signal → Option Int
  | .progress .scanning current _ => some current
  | .progress _ _ _ => shown
  | .clear => none

/-- The last step since the bar was last cleared. -/
def shown? (signals : List Signal) : Option Int := signals.foldl Signal.shown none

/-- The text is made of spaces. -/
def IsBlank (text : Text) : Prop := ∀ c ∈ text, c = .ofChar ' '

/-- The line shows a step and no more, or it is blank. No cell behind a drawn line was written. -/
structure Terminal.Shows (width total : Int) (shown : Option Int) (terminal : Terminal) : Prop where
  wide : terminal.bar.width = width
  reach : terminal.line.cells.length ≤ drawingLength width total
  drawing : ∀ current ∈ shown, IsDrawing width current total terminal.line.cells ∧
    terminal.bar.drawn = drawingLength width total
  blank : shown = none → IsBlank terminal.line.cells ∧ terminal.line.cursor = 0 ∧
    terminal.bar.drawn = 0

section

variable {width total : Int} {shown : Option Int} {terminal : Terminal}

/-- Only scanning is drawn. -/
theorem Terminal.step_ignored {phase : Phase} (other : phase ≠ .scanning) (current own : Int) :
    terminal.step (.progress phase current own) = terminal := by
  simp [step, ProgressBar.answer, ProgressBar.draw, other, Line.write]

/-- A drawn line takes the place of all that was written before. -/
theorem Terminal.Shows.draw {current : Int} (shows : terminal.Shows width total shown)
    (step : IsStep width current total) :
    (terminal.bar.answer (.progress .scanning current total)).1 =
        atLineStart (terminal.bar.line current total) ∧
      (terminal.step (.progress .scanning current total)).line.cells =
        terminal.bar.line current total ∧
      (terminal.step (.progress .scanning current total)).Shows width total (some current) := by
  obtain ⟨isWidth, reach, -, -⟩ := shows
  subst isWidth
  have positive : 0 < total := by
    have started := step.started
    have inside := step.inside
    omega
  have told : terminal.bar.answer (.progress .scanning current total) =
      (atLineStart (terminal.bar.line current total),
        { terminal.bar with drawn := (terminal.bar.line current total).length }) := by
    simp [ProgressBar.answer, ProgressBar.draw, positive]
  have drawing := isDrawing_line step
  have written := terminal.line.write_lineStart (drawing.plain step)
  have nothingLeft : terminal.line.cells.drop (terminal.bar.line current total).length = [] :=
    List.drop_eq_nil_of_le (by rwa [drawing.length])
  rw [nothingLeft, List.append_nil] at written
  have cells : (terminal.step (.progress .scanning current total)).line.cells =
      terminal.bar.line current total := by
    rw [Terminal.step, told]
    exact written.1
  have bar : (terminal.step (.progress .scanning current total)).bar =
      { terminal.bar with drawn := (terminal.bar.line current total).length } := by
    rw [Terminal.step, told]
  refine ⟨by rw [told], cells, ⟨by rw [bar], ?_, ?_, by simp⟩⟩
  · rw [cells, drawing.length]
  · intro own same
    cases same
    rw [cells, bar]
    exact ⟨drawing, drawing.length⟩

/-- Clearing writes over the last line, whatever the step, and nothing if there is none. -/
theorem Terminal.Shows.clear (shows : terminal.Shows width total shown) :
    (shown = none → (terminal.bar.answer .clear).1 = []) ∧
      (terminal.step .clear).Shows width total none := by
  obtain ⟨isWidth, reach, drawing, blank⟩ := shows
  cases shown with
  | none =>
      obtain ⟨isBlank, atStart, notDrawn⟩ := blank rfl
      have told : terminal.bar.answer .clear = ([], terminal.bar) := by
        rw [ProgressBar.answer, ProgressBar.clear, if_pos notDrawn]
      have same : terminal.step .clear = terminal := by
        rw [Terminal.step, told]
        rfl
      rw [told, same]
      exact ⟨fun _ => rfl, isWidth, reach, by simp, fun _ => ⟨isBlank, atStart, notDrawn⟩⟩
  | some current =>
      obtain ⟨isDrawing, drawn⟩ := drawing current rfl
      have filled : terminal.bar.drawn ≠ 0 := by
        rw [drawn, drawingLength]
        omega
      have blanks : IsPlain (List.replicate terminal.bar.drawn (.ofChar ' ')) :=
        isPlain_replicate (by decide) _
      have told : terminal.bar.answer .clear =
          (atLineStart (List.replicate terminal.bar.drawn (.ofChar ' ')) ++ Text.ofString "\r",
            { terminal.bar with drawn := 0 }) := by
        rw [ProgressBar.answer, ProgressBar.clear, if_neg filled]
      have written := terminal.line.write_lineStart blanks
      have nothingLeft : terminal.line.cells.drop terminal.bar.drawn = [] :=
        List.drop_eq_nil_of_le (by rw [drawn, isDrawing.length])
      have cells : (terminal.step .clear).line.cells =
          List.replicate terminal.bar.drawn (.ofChar ' ') := by
        rw [Terminal.step, told]
        simp only [Line.write_append]
        exact written.1.trans (by simp [nothingLeft])
      have cursor : (terminal.step .clear).line.cursor = 0 := by
        rw [Terminal.step, told]
        simp only [Line.write_append]
        rfl
      have bar : (terminal.step .clear).bar = { terminal.bar with drawn := 0 } := by
        rw [Terminal.step, told]
      refine ⟨by simp, by rw [bar]; exact isWidth, ?_, by simp, fun _ => ⟨?_, cursor, by rw [bar]⟩⟩
      · rw [cells, List.length_replicate, drawn]
      · rw [cells]
        exact fun c member => List.eq_of_mem_replicate member

/-- A signal leads from what the line shows to what it is to show next. -/
theorem Terminal.Shows.step {signal : Signal} (shows : terminal.Shows width total shown)
    (wide : 0 ≤ width) (counts : signal.Counts total) :
    (terminal.step signal).Shows width total (signal.shown shown) := by
  cases signal with
  | clear => exact shows.clear.2
  | progress phase current own =>
      cases phase with
      | scanning =>
          obtain ⟨rfl, started, inside⟩ := counts
          exact (shows.draw ⟨wide, started, inside⟩).2.2
      | pending | aggregating | done =>
          rw [Terminal.step_ignored (by decide)]
          exact shows

/-- After any signals the line shows the last step, or it is blank. -/
theorem Terminal.Shows.run {signals : List Signal} (shows : terminal.Shows width total shown)
    (wide : 0 ≤ width) (counts : ∀ signal ∈ signals, signal.Counts total) :
    (terminal.run signals).Shows width total (signals.foldl Signal.shown shown) := by
  induction signals generalizing terminal shown with
  | nil => exact shows
  | cons signal rest inductionHypothesis =>
      obtain ⟨own, others⟩ := List.forall_mem_cons.mp counts
      exact inductionHypothesis (shows.step wide own) others

theorem Terminal.shows_new (width total : Int) : (Terminal.new width).Shows width total none :=
  ⟨rfl, Nat.zero_le _, by simp, fun _ => ⟨by simp [IsBlank, Terminal.new, Line.new], rfl, rfl⟩⟩

/-- A bar is drawn, cleared and told of other phases in any order. Then its line shows the last step
since it was cleared and nothing else, and it is blank if there is none, with the cursor at its
start. Each step is drawn with the same length and replaces the line. Clearing leaves all cells
blank, and it writes nothing if nothing is drawn. Other phases write nothing at all. -/
theorem terminal_shows {signals : List Signal} (wide : 0 ≤ width)
    (counts : ∀ signal ∈ signals, signal.Counts total) :
    (∀ current ∈ shown? signals,
      IsDrawing width current total ((Terminal.new width).run signals).line.cells) ∧
    (shown? signals = none → IsBlank ((Terminal.new width).run signals).line.cells ∧
      ((Terminal.new width).run signals).line.cursor = 0 ∧
      (((Terminal.new width).run signals).bar.answer .clear).1 = []) ∧
    (∀ current, 1 ≤ current → current ≤ total → ∃ line, IsDrawing width current total line ∧
      line.length = drawingLength width total ∧
      (((Terminal.new width).run signals).bar.answer (.progress .scanning current total)).1 =
        atLineStart line ∧
      ((Terminal.new width).run (signals ++ [.progress .scanning current total])).line.cells =
        line) ∧
    IsBlank ((Terminal.new width).run (signals ++ [.clear])).line.cells ∧
    ((Terminal.new width).run (signals ++ [.clear])).line.cursor = 0 ∧
    ∀ phase ≠ Phase.scanning, ∀ current own,
      (((Terminal.new width).run signals).bar.answer (.progress phase current own)).1 = [] := by
  have last (signal : Signal) : (Terminal.new width).run (signals ++ [signal]) =
      ((Terminal.new width).run signals).step signal := by
    simp [Terminal.run]
  have shows : ((Terminal.new width).run signals).Shows width total (shown? signals) :=
    (Terminal.shows_new width total).run wide counts
  obtain ⟨silent, cleared⟩ := shows.clear
  obtain ⟨isBlank, atStart, -⟩ := cleared.blank rfl
  simp only [last]
  refine ⟨fun current shown => (shows.drawing current shown).1, ?_, ?_, isBlank, atStart, ?_⟩
  · intro nothing
    obtain ⟨own, start, -⟩ := shows.blank nothing
    exact ⟨own, start, silent nothing⟩
  · intro current started inside
    obtain ⟨written, cells, shown⟩ := shows.draw ⟨wide, started, inside⟩
    have drawing := (shown.drawing current rfl).1
    rw [cells] at drawing
    exact ⟨_, drawing, drawing.length, written, cells⟩
  · intro phase other current own
    simp [ProgressBar.answer, ProgressBar.draw, other]

end

/-- Steps out of order with another phase between them. The bar is cleared twice on the way. -/
def restlessSignals : List Signal := [
  .progress .scanning 12 12, .progress .aggregating 0 1, .progress .scanning 3 12, .clear, .clear,
  .progress .scanning 7 12]

/-- The last step is shown, and after one more clearing the line is blank. -/
theorem terminal_shows_restless :
    (∀ signal ∈ restlessSignals, signal.Counts 12) ∧
      ((Terminal.new 5).run restlessSignals).line.cells = Text.ofString "  7/12 [==   ]" ∧
      IsDrawing 5 7 12 ((Terminal.new 5).run restlessSignals).line.cells ∧
      IsBlank ((Terminal.new 5).run (restlessSignals ++ [.clear])).line.cells ∧
      ((Terminal.new 5).run (restlessSignals ++ [.clear])).line.cursor = 0 := by
  have counts : ∀ signal ∈ restlessSignals, signal.Counts 12 := by
    simp [restlessSignals, Signal.Counts]
  have wide : (0 : Int) ≤ 5 := by decide
  obtain ⟨shown, -, -, isBlank, atStart, -⟩ := terminal_shows wide counts
  exact ⟨counts, by decide +kernel, shown 7 rfl, isBlank, atStart⟩

end Untranslated.CommandLine
