/-
This file proves that JSON is refused for the length of a number only where such a number stands.
-/

import Untranslated.Json.Parser

namespace Untranslated.Json

/-- More digits than an integer may have stand at a place of the text, perhaps after a sign. -/
def LongInteger (source : List Char) (position : Nat) : Prop :=
  ∃ digits rest, (source.drop position = digits ++ rest ∨
      source.drop position = '-' :: digits ++ rest) ∧
    digits.all isDigit = true ∧ integerDigitLimit < digits.length

/-- A cursor of a text has the rest of the text from its place on. -/
def Cursor.In (source : List Char) (cursor : Cursor) : Prop :=
  cursor.rest = source.drop cursor.position

/-- What is read leaves a cursor of the text, and an integer that is too long stands where the
error says. -/
def Placed {A : Type} (source : List Char) : Except ParseError (A × Cursor) → Prop
  | .ok (_, last) => last.In source
  | .error e => e.cause = .integerTooLong → LongInteger source e.position

section

variable {source : List Char} {cursor : Cursor}

/-- A cursor that goes on stays in the text. -/
theorem Cursor.In.advance (inside : cursor.In source) (count : Nat) :
    (cursor.advance count).In source := by
  have rest : cursor.rest = source.drop cursor.position := inside
  simp [Cursor.In, Cursor.advance, rest]

theorem Cursor.In.skipSpace (inside : cursor.In source) : cursor.skipSpace.In source :=
  inside.advance _

theorem placed_fail {A : Type} {cause : Cause} (other : cause ≠ .integerTooLong) :
    Placed (A := A) source (cursor.fail cause) := fun same => absurd same other

/-- Where two readings are in their places, so are both in a row. -/
theorem placed_bind {A B : Type} {first : Except ParseError (A × Cursor)}
    {next : A × Cursor → Except ParseError (B × Cursor)} (placed : Placed source first)
    (later : ∀ a last, last.In source → Placed source (next (a, last))) :
    Placed source (first >>= next) := by
  cases first with
  | error e => exact placed
  | ok read => exact later read.1 read.2 placed

/-- An escape is not refused for the length of an integer. -/
theorem unicodeEscape_cause {e : ParseError} (failed : unicodeEscape cursor = .error e) :
    e.cause ≠ .integerTooLong := by
  have cause : e.cause = .invalidUnicodeEscape := by
    simp only [unicodeEscape] at failed
    repeat' split at failed
    all_goals first | rw [← Except.error.inj failed] | cases failed
  simp [cause]

/-- A string is read in its place. -/
theorem stringBody_placed (start fuel : Nat) (inside : cursor.In source) :
    Placed source (stringBody start fuel cursor) := by
  have unterminated : Placed (A := Text) source (.error ⟨.unterminatedString, start⟩) := nofun
  induction fuel generalizing cursor with
  | zero => exact unterminated
  | succ fuel inductionHypothesis =>
      rw [stringBody]
      split
      · exact unterminated
      · exact inside.advance 1
      · exact unterminated
      · cases escape : unicodeEscape (cursor.advance 2) with
        | error e => exact fun same => absurd same (unicodeEscape_cause escape)
        | ok read =>
            exact placed_bind (inductionHypothesis (inside.advance _)) fun _ _ last => last
      · split
        · exact placed_fail (by decide)
        · exact placed_bind (inductionHypothesis (inside.advance _)) fun _ _ last => last
      · split
        · exact placed_fail (by decide)
        · exact placed_bind (inductionHypothesis (inside.advance _)) fun _ _ last => last

/-- The whole part of a number is made of digits and stands at the front of the text. -/
theorem wholePart_digits (cs : List Char) :
    (wholePart cs).all isDigit = true ∧ ∃ rest, cs = wholePart cs ++ rest := by
  rw [wholePart.eq_def]
  split
  · exact ⟨by decide, _, rfl⟩
  · exact ⟨List.all_takeWhile, _, (List.takeWhile_append_dropWhile ..).symm⟩

/-- A number is read in its place. If it is too long, it stands where the error says. -/
theorem number_placed (inside : cursor.In source) : Placed source (number cursor) := by
  unfold number
  extract_lets negative unsigned whole afterWhole part partSize scale size magnitude
  obtain ⟨digits, rest, parted⟩ : whole.all isDigit = true ∧ ∃ rest, unsigned = whole ++ rest :=
    wholePart_digits unsigned
  have here : source.drop cursor.position = cursor.rest := inside.symm
  have placed : source.drop cursor.position = whole ++ rest ∨
      source.drop cursor.position = '-' :: whole ++ rest := by
    rw [here]
    cases sign : negative with
    | false => exact .inl (by simpa [unsigned, sign] using parted)
    | true =>
        obtain ⟨later, is⟩ : ∃ later, cursor.rest = '-' :: later := by
          simpa [negative, List.head?_eq_some_iff] using sign
        have dropped : later = whole ++ rest := by simpa [unsigned, sign, is] using parted
        exact .inr (by rw [is, dropped, List.cons_append])
  split
  · exact placed_fail (by decide)
  · split
    · split
      · next long => exact fun _ => ⟨whole, rest, placed, digits, long⟩
      · exact inside.advance _
    · exact inside.advance _

/-- With so much fuel, values, items and members are read in their places. -/
structure Reads (source : List Char) (fuel : Nat) : Prop where
  value : ∀ {cursor : Cursor}, cursor.In source → Placed source (value fuel cursor)
  items : ∀ {cursor : Cursor}, cursor.In source → Placed source (items fuel cursor)
  members : ∀ {cursor : Cursor} known, cursor.In source →
    Placed source (members fuel cursor known)

section

variable {fuel : Nat} (inner : Reads source fuel)

include inner

/-- A value is read in its place if what is inside is. -/
theorem Reads.value_placed (inside : cursor.In source) :
    Placed source (Json.value (fuel + 1) cursor) := by
  rw [Json.value]
  split
  · exact placed_bind (stringBody_placed _ _ (inside.advance 1)) fun _ _ last => last
  · dsimp only
    split
    · exact (inside.advance 1).skipSpace.advance 1
    · exact placed_bind (inner.items (inside.advance 1).skipSpace) fun _ _ last => last
  · dsimp only
    split
    · exact (inside.advance 1).skipSpace.advance 1
    · exact placed_bind (inner.members [] (inside.advance 1).skipSpace) fun _ _ last => last
  · split
    · exact inside.advance _
    · exact number_placed inside

/-- Items are read in their places if their values are. -/
theorem Reads.items_placed (inside : cursor.In source) :
    Placed source (Json.items (fuel + 1) cursor) := by
  rw [Json.items]
  refine placed_bind (inner.value inside) fun first next after => ?_
  dsimp only
  split
  · exact after.skipSpace.advance 1
  · exact placed_bind (inner.items (after.skipSpace.advance 1).skipSpace) fun _ _ last => last
  · exact placed_fail (by decide)

/-- Members are read in their places if their values are. -/
theorem Reads.members_placed (known : List (Text × Value)) (inside : cursor.In source) :
    Placed source (Json.members (fuel + 1) cursor known) := by
  rw [Json.members]
  split
  · refine placed_bind (stringBody_placed _ _ (inside.advance 1)) fun name next after => ?_
    dsimp only
    split
    · refine placed_bind (inner.value (after.skipSpace.advance 1).skipSpace)
        fun read next after => ?_
      dsimp only
      split
      · exact after.skipSpace.advance 1
      · exact inner.members _ (after.skipSpace.advance 1).skipSpace
      · exact placed_fail (by decide)
    · exact placed_fail (by decide)
  · exact placed_fail (by decide)

end

/-- All is read in its place with any fuel. -/
theorem reads (source : List Char) (fuel : Nat) : Reads source fuel := by
  induction fuel with
  | zero =>
      refine ⟨fun inside => ?_, fun inside => ?_, fun known inside => ?_⟩
      · rw [Json.value]
        exact placed_fail (by decide)
      · rw [Json.items]
        exact placed_fail (by decide)
      · rw [Json.members]
        exact placed_fail (by decide)
  | succ fuel inductionHypothesis =>
      exact ⟨inductionHypothesis.value_placed, inductionHypothesis.items_placed,
        inductionHypothesis.members_placed⟩

end

/-- Where a text is refused for the length of an integer, such an integer stands. -/
theorem parse_longInteger {source : List Char} {e : ParseError} (failed : parse source = .error e)
    (tooLong : e.cause = .integerTooLong) : LongInteger source e.position := by
  rw [parse, parseWithin] at failed
  split at failed
  · cases failed
    cases tooLong
  · have start : (Cursor.mk 0 source).In source := rfl
    have placed := (reads source (2 * source.length + 1)).value start.skipSpace
    cases read : value (2 * source.length + 1) (Cursor.skipSpace ⟨0, source⟩) with
    | error own =>
        rw [read] at failed placed
        cases failed
        exact placed tooLong
    | ok found =>
        rw [read] at failed
        simp only [bind, Except.bind] at failed
        split at failed
        · cases failed
        · cases failed
          cases tooLong

end Untranslated.Json
