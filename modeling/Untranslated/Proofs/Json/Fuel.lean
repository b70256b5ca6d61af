/-
This file proves that the fuel of the JSON reader never runs out, however deep a text is nested.
-/

import Untranslated.Json.Parser

namespace Untranslated.Json

/-- What is read leaves less of the text than there was before. -/
def Shortens {A : Type} (size : Nat) : Except ParseError (A × Cursor) → Prop
  | .ok (_, last) => last.rest.length < size
  | .error _ => True

section

variable {cursor : Cursor}

theorem Cursor.advance_length (cursor : Cursor) (count : Nat) :
    (cursor.advance count).rest.length = cursor.rest.length - count := List.length_drop

/-- White space only takes away. -/
theorem Cursor.skipSpace_length (cursor : Cursor) :
    cursor.skipSpace.rest.length ≤ cursor.rest.length := by
  rw [skipSpace, advance_length]
  exact Nat.sub_le _ _

/-- White space, one mark and white space again take away one character at least. -/
theorem Cursor.pass_length (cursor : Cursor) :
    (cursor.skipSpace.advance 1).skipSpace.rest.length ≤ cursor.rest.length - 1 := by
  have spaced := cursor.skipSpace_length
  have passed := (cursor.skipSpace.advance 1).skipSpace_length
  rw [advance_length] at passed
  omega

/-- What is left is also less than any greater size. -/
theorem Shortens.mono {A : Type} {size more : Nat} {result : Except ParseError (A × Cursor)}
    (shortens : Shortens size result) (fits : size ≤ more) : Shortens more result := by
  cases result with
  | error e => trivial
  | ok read => exact Nat.lt_of_lt_of_le shortens fits

/-- What is read after something that shortens the text may leave as much as that does. -/
theorem Shortens.bind {A B : Type} {size : Nat} {first : Except ParseError (A × Cursor)}
    {next : A × Cursor → Except ParseError (B × Cursor)} (shortens : Shortens size first)
    (later : ∀ a last, last.rest.length < size → Shortens size (next (a, last))) :
    Shortens size (first >>= next) := by
  cases first with
  | error e => trivial
  | ok read => exact later read.1 read.2 shortens

/-- A string takes its closing quote away at least. -/
theorem stringBody_shortens (start fuel : Nat) (cursor : Cursor) :
    Shortens cursor.rest.length (stringBody start fuel cursor) := by
  induction fuel generalizing cursor with
  | zero => trivial
  | succ fuel inductionHypothesis =>
      have further (count : Nat) :
          Shortens cursor.rest.length (stringBody start fuel (cursor.advance count)) :=
        (inductionHypothesis _).mono (by rw [Cursor.advance_length]; exact Nat.sub_le _ _)
      rw [stringBody]
      split
      · trivial
      · next quote =>
        rw [Shortens, Cursor.advance_length, quote]
        simp
      · trivial
      · cases unicodeEscape (cursor.advance 2) with
        | error e => trivial
        | ok read => exact (further _).bind fun _ _ shorter => shorter
      · split
        · trivial
        · exact (further 2).bind fun _ _ shorter => shorter
      · split
        · trivial
        · exact (further 1).bind fun _ _ shorter => shorter

/-- A constant takes at least one character, and not more than there are. -/
theorem constant?_size {cs : List Char} {constant : Value} {size : Nat}
    (found : constant? cs = some (constant, size)) : 0 < size ∧ size ≤ cs.length := by
  obtain ⟨⟨word, own⟩, listed, is⟩ := Option.map_eq_some_iff.mp found
  obtain ⟨-, rfl⟩ := Prod.mk.inj is
  have begins : word.toList.isPrefixOf cs = true := by simpa using List.find?_some listed
  have filled : ∀ entry ∈ constants, 0 < entry.1.length := by decide
  exact ⟨filled _ (List.mem_of_find?_eq_some listed),
    (List.isPrefixOf_iff_prefix.mp begins).length_le⟩

/-- The whole part of a number stands in the text. -/
theorem wholePart_length (cs : List Char) : (wholePart cs).length ≤ cs.length := by
  rw [wholePart.eq_def]
  split
  · simp
  · exact (List.takeWhile_sublist _).length_le

/-- A number takes its whole part away at least. -/
theorem number_shortens (cursor : Cursor) : Shortens cursor.rest.length (number cursor) := by
  unfold number
  extract_lets negative unsigned whole afterWhole part partSize scale size magnitude
  have unsignedLength : unsigned.length ≤ cursor.rest.length := by
    simp only [unsigned]
    split <;> simp
  have wholeLength : whole.length ≤ unsigned.length := wholePart_length unsigned
  split
  · trivial
  · next filled =>
    have positive : 0 < whole.length := by
      rwa [List.length_pos_iff, ne_eq, ← List.isEmpty_iff]
    have taken : whole.length ≤ size := by
      simp only [size]
      omega
    have shorter : (cursor.advance size).rest.length < cursor.rest.length := by
      rw [Cursor.advance_length]
      omega
    split
    · split
      · trivial
      · exact shorter
    · exact shorter

/-- With so much fuel, what is read is shortened. -/
structure Shortening (fuel : Nat) : Prop where
  value : ∀ cursor : Cursor, Shortens cursor.rest.length (value fuel cursor)
  items : ∀ cursor : Cursor, Shortens cursor.rest.length (items fuel cursor)
  members : ∀ (cursor : Cursor) known, Shortens cursor.rest.length (members fuel cursor known)

end

section

variable {fuel : Nat} (inner : Shortening fuel)

include inner

/-- A value takes its own first character away at least. -/
theorem Shortening.value_shortens (cursor : Cursor) :
    Shortens cursor.rest.length (Json.value (fuel + 1) cursor) := by
  have opened := (cursor.advance 1).skipSpace_length
  rw [Cursor.advance_length] at opened
  have closed := Cursor.advance_length (cursor.advance 1).skipSpace 1
  rw [Json.value]
  split
  · refine ((stringBody_shortens _ _ _).mono ?_).bind fun _ _ shorter => shorter
    rw [Cursor.advance_length]
    exact Nat.sub_le _ _
  · next begins =>
    have filled : 0 < cursor.rest.length := by simp [begins]
    dsimp only
    split
    · rw [Shortens]
      omega
    · exact ((inner.items _).mono (by omega)).bind fun _ _ shorter => shorter
  · next begins =>
    have filled : 0 < cursor.rest.length := by simp [begins]
    dsimp only
    split
    · rw [Shortens]
      omega
    · exact ((inner.members _ []).mono (by omega)).bind fun _ _ shorter => shorter
  · split
    · next found =>
      obtain ⟨positive, fits⟩ := constant?_size found
      rw [Shortens, Cursor.advance_length]
      omega
    · exact number_shortens cursor

/-- Items take away what their first value takes. -/
theorem Shortening.items_shortens (cursor : Cursor) :
    Shortens cursor.rest.length (Json.items (fuel + 1) cursor) := by
  rw [Json.items]
  refine (inner.value cursor).bind fun first next shorter => ?_
  have passed := next.pass_length
  have spaced := next.skipSpace_length
  dsimp only
  split
  · change (next.skipSpace.advance 1).rest.length < cursor.rest.length
    rw [Cursor.advance_length]
    omega
  · exact ((inner.items _).mono (by omega)).bind fun _ _ shorter => shorter
  · trivial

/-- Members take away what their first name takes. -/
theorem Shortening.members_shortens (cursor : Cursor) (known : List (Text × Value)) :
    Shortens cursor.rest.length (Json.members (fuel + 1) cursor known) := by
  rw [Json.members]
  split
  · have named := (stringBody_shortens cursor.position (cursor.rest.length + 1)
      (cursor.advance 1)).mono (Cursor.advance_length cursor 1 ▸ Nat.sub_le _ _)
    refine named.bind fun name next shorter => ?_
    have passed := next.pass_length
    dsimp only
    split
    · have read := (inner.value (next.skipSpace.advance 1).skipSpace).mono
        (Nat.le_of_lt (Nat.lt_of_le_of_lt (Nat.le_trans passed (Nat.sub_le _ _)) shorter))
      refine read.bind fun value last shorter => ?_
      have passed := last.pass_length
      have spaced := last.skipSpace_length
      dsimp only
      split
      · change (last.skipSpace.advance 1).rest.length < cursor.rest.length
        rw [Cursor.advance_length]
        omega
      · exact (inner.members _ _).mono (by omega)
      · trivial
    · trivial
  · trivial

end

/-- What is read is shortened with any fuel. -/
theorem shortening (fuel : Nat) : Shortening fuel := by
  induction fuel with
  | zero => exact ⟨fun _ => trivial, fun _ => trivial, fun _ _ => trivial⟩
  | succ fuel inner =>
      exact ⟨inner.value_shortens, inner.items_shortens, inner.members_shortens⟩

/-- Fuel is ample for a text if more of it changes nothing. Two steps for each character are, and
what stands in brackets needs one step more. -/
structure Ample (fuel : Nat) : Prop where
  value : ∀ {cursor : Cursor}, 2 * cursor.rest.length + 1 ≤ fuel → ∀ more,
    value (fuel + more) cursor = value fuel cursor
  items : ∀ {cursor : Cursor}, 2 * cursor.rest.length + 2 ≤ fuel → ∀ more,
    items (fuel + more) cursor = items fuel cursor
  members : ∀ {cursor : Cursor}, 2 * cursor.rest.length + 2 ≤ fuel → ∀ more known,
    members (fuel + more) cursor known = members fuel cursor known

section

variable {fuel : Nat} (inner : Ample fuel) {cursor : Cursor}

include inner

/-- A value needs two steps for each character and one more. -/
theorem Ample.value_ample (enough : 2 * cursor.rest.length + 1 ≤ fuel + 1) (more : Nat) :
    Json.value (fuel + 1 + more) cursor = Json.value (fuel + 1) cursor := by
  rw [Nat.add_right_comm, Json.value, Json.value]
  cases begins : cursor.rest with
  | nil => rfl
  | cons c rest =>
      have opened := (cursor.advance 1).skipSpace_length
      rw [Cursor.advance_length] at opened
      have filled : cursor.rest.length = rest.length + 1 := by simp [begins]
      have ample : 2 * (cursor.advance 1).skipSpace.rest.length + 2 ≤ fuel := by omega
      simp only [inner.items ample, inner.members ample]

/-- Items need one step more than a value of the same text. -/
theorem Ample.items_ample (enough : 2 * cursor.rest.length + 2 ≤ fuel + 1) (more : Nat) :
    Json.items (fuel + 1 + more) cursor = Json.items (fuel + 1) cursor := by
  rw [Nat.add_right_comm, Json.items, Json.items, inner.value (by omega)]
  have shortens := (shortening fuel).value cursor
  cases read : Json.value fuel cursor with
  | error e => rfl
  | ok found =>
      obtain ⟨first, next⟩ := found
      rw [read] at shortens
      have shorter : next.rest.length < cursor.rest.length := shortens
      have passed := next.pass_length
      have ample : 2 * (next.skipSpace.advance 1).skipSpace.rest.length + 2 ≤ fuel := by omega
      simp only [bind, Except.bind, inner.items ample]

/-- Members need one step more than a value of the same text. -/
theorem Ample.members_ample (enough : 2 * cursor.rest.length + 2 ≤ fuel + 1) (more : Nat)
    (known : List (Text × Value)) :
    Json.members (fuel + 1 + more) cursor known = Json.members (fuel + 1) cursor known := by
  rw [Nat.add_right_comm, Json.members, Json.members]
  have shortens := stringBody_shortens cursor.position (cursor.rest.length + 1) (cursor.advance 1)
  cases named : stringBody cursor.position (cursor.rest.length + 1) (cursor.advance 1) with
  | error e => rfl
  | ok found =>
      obtain ⟨name, next⟩ := found
      rw [named] at shortens
      have shorter : next.rest.length < (cursor.advance 1).rest.length := shortens
      rw [Cursor.advance_length] at shorter
      have passed := next.pass_length
      have ample : 2 * (next.skipSpace.advance 1).skipSpace.rest.length + 1 ≤ fuel := by omega
      have shortens := (shortening fuel).value (next.skipSpace.advance 1).skipSpace
      simp only [bind, Except.bind, inner.value ample]
      cases read : Json.value fuel (next.skipSpace.advance 1).skipSpace with
      | error e => rfl
      | ok found =>
          obtain ⟨value, last⟩ := found
          rw [read] at shortens
          have shorter : last.rest.length < (next.skipSpace.advance 1).skipSpace.rest.length :=
            shortens
          have passed := last.pass_length
          have ample : 2 * (last.skipSpace.advance 1).skipSpace.rest.length + 2 ≤ fuel := by omega
          simp only [inner.members ample]

end

/-- Any fuel is ample for texts that are short enough. -/
theorem ample (fuel : Nat) : Ample fuel := by
  induction fuel with
  | zero => exact ⟨fun none => by omega, fun none => by omega, fun none => by omega⟩
  | succ fuel inner => exact ⟨inner.value_ample, inner.items_ample, inner.members_ample⟩

/-- A text is read alike with any fuel from the reader's own on. -/
theorem parseWithin_parse {source : List Char} {fuel : Nat}
    (enough : 2 * source.length + 1 ≤ fuel) : parseWithin fuel source = parse source := by
  obtain ⟨more, rfl⟩ := Nat.exists_eq_add_of_le enough
  have spaced := Cursor.skipSpace_length ⟨0, source⟩
  have within : 2 * (Cursor.skipSpace ⟨0, source⟩).rest.length + 1 ≤ 2 * source.length + 1 :=
    Nat.succ_le_succ (Nat.mul_le_mul_left 2 spaced)
  rw [parse, parseWithin, parseWithin, (ample _).value within]

/-- Brackets that are not closed are refused where the text ends. -/
example : parse ['[', '[', '['] = .error ⟨.expectingValue, 3⟩ := by rfl

end Untranslated.Json
