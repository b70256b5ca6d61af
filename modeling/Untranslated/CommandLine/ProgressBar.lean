/-
This file draws a progress bar on one line of a terminal.
-/

import Untranslated.Scan.Schedule

namespace Untranslated.CommandLine

open Scan (Phase)

/-- The bar remembers the length of the line that it has drawn. -/
structure ProgressBar where
  width : Int
  drawn : Nat
deriving DecidableEq

def standardWidth : Int := 28

def ProgressBar.new (width : Int) : ProgressBar := ⟨width, 0⟩

def cells (c : Char) (count : Int) : Text := List.replicate count.toNat (CodePoint.ofChar c)

/-- A number with blanks in front, as wide as the total. -/
def aligned (width : Nat) (n : Int) : Text :=
  let text := Text.ofInt n
  List.replicate (width - text.length) (CodePoint.ofChar ' ') ++ text

/-- The filled part of the bar grows with the current step. -/
def ProgressBar.line (bar : ProgressBar) (current total : Int) : Text :=
  let filled := (bar.width * current).tdiv total
  let last := Text.ofInt total
  Text.ofString " " ++ aligned last.length current ++ Text.ofString "/" ++ last ++
    Text.ofString " [" ++ cells '=' filled ++ cells ' ' (bar.width - filled) ++ Text.ofString "]"

def atLineStart (t : Text) : Text := Text.ofString "\r" ++ t

/-- What is written to the terminal, and the bar after it. Only the scanning of files is shown. -/
def ProgressBar.draw (phase : Phase) (current total : Int) (bar : ProgressBar) :
    Text × ProgressBar :=
  if phase = .scanning && 0 < total then
    let line := bar.line current total
    (atLineStart line, { bar with drawn := line.length })
  else ([], bar)

/-- A drawn line is overwritten with blanks. -/
def ProgressBar.clear (bar : ProgressBar) : Text × ProgressBar :=
  if bar.drawn = 0 then ([], bar)
  else
    (atLineStart (List.replicate bar.drawn (CodePoint.ofChar ' ')) ++ Text.ofString "\r",
      { bar with drawn := 0 })

end Untranslated.CommandLine
