/-
This file proves that a body is read as the escapes that a scan from left to right meets.
Every piece adds its share to the text, and an escape beyond the last code point is the only fault.
-/

import Mathlib.Data.List.TakeWhile
import Untranslated.Fault
import Untranslated.Proofs.Php.Escapes
import Untranslated.Proofs.Php.Literal.Pieces

namespace Untranslated.Php.Literal

/-- The digits below eight. -/
def octalDigits : Text := "01234567"

/-- The digits below sixteen, in both cases. -/
def hexDigits : Text := "0123456789ABCDEFabcdef"

/-- The text of a piece in a body. -/
def Piece.written : Piece → Text
  | .plain c => [c]
  | .simple letter _ => [backslash, letter]
  | .octal digits => backslash :: digits
  | .hex digits => backslash :: .ofChar 'x' :: digits
  | .point digits =>
    backslash :: .ofChar 'u' :: .ofChar '\x7b' :: (digits ++ [.ofChar '\x7d'])

/-- The escapes of quoted text. -/
inductive IsEscape : Piece → Prop where
  | simple {letter value : Char} (listed : (letter, value) ∈ simpleEscapes) :
      IsEscape (.simple (.ofChar letter) value)
  | octal {digits : Text} (filled : digits ≠ []) (short : digits.length ≤ 3)
      (all : ∀ c ∈ digits, c ∈ octalDigits) : IsEscape (.octal digits)
  | hex {digits : Text} (filled : digits ≠ []) (short : digits.length ≤ 2)
      (all : ∀ c ∈ digits, c ∈ hexDigits) : IsEscape (.hex digits)
  | point {digits : Text} (filled : digits ≠ []) (all : ∀ c ∈ digits, c ∈ hexDigits) :
      IsEscape (.point digits)

/-- A scan from left to right takes the longest escape at its place. Where none begins, it passes
over one character. -/
inductive Scanned : Text → List Piece → Prop where
  | done : Scanned [] []
  | escape {piece : Piece} {rest : Text} {row : List Piece} (is : IsEscape piece)
      (longest : ∀ other, IsEscape other → other.written <+: piece.written ++ rest →
        other.written.length ≤ piece.written.length)
      (later : Scanned rest row) : Scanned (piece.written ++ rest) (piece :: row)
  | plain {c : CodePoint} {rest : Text} {row : List Piece}
      (noEscape : ∀ escape, IsEscape escape → ¬escape.written <+: c :: rest)
      (later : Scanned rest row) : Scanned (c :: rest) (.plain c :: row)

/-- What a piece adds to the text: a character of its own or one character for an escape. Where
quotes are not escaped, a quote keeps its backslash. -/
inductive Contributes (escapesQuote : Bool) : Piece → Text → Prop where
  | plain (c : CodePoint) : Contributes escapesQuote (.plain c) [c]
  | keptQuote (value : Char) (kept : escapesQuote = false) :
      Contributes escapesQuote (.simple (.ofChar '"') value) [backslash, .ofChar '"']
  | escape {piece : Piece} (c : CodePoint) (is : IsEscape piece)
      (escaped : escapesQuote = true ∨ piece.written ≠ [backslash, .ofChar '"']) :
      Contributes escapesQuote piece [c]

/-- A code point is in a text just when its value is. -/
theorem mem_iff_value {c : CodePoint} {t : Text} : c ∈ t ↔ c.value ∈ t.map CodePoint.value := by
  constructor
  · exact List.mem_map_of_mem
  · intro member
    obtain ⟨other, inside, same⟩ := List.mem_map.mp member
    cases other
    cases c
    subst same
    exact inside

/-- The digits by their numbers. -/
theorem digitValue?_cases (c : CodePoint) :
    (48 ≤ c.value ∧ c.value ≤ 57 ∧ digitValue? c = some (c.value - 48)) ∨
      (97 ≤ c.value ∧ c.value ≤ 102 ∧ digitValue? c = some (c.value - 87)) ∨
      (65 ≤ c.value ∧ c.value ≤ 70 ∧ digitValue? c = some (c.value - 55)) ∨
      (¬(48 ≤ c.value ∧ c.value ≤ 57) ∧ ¬(97 ≤ c.value ∧ c.value ≤ 102) ∧
        ¬(65 ≤ c.value ∧ c.value ≤ 70) ∧ digitValue? c = none) := by
  simp only [digitValue?, Bool.and_eq_true, decide_eq_true_eq]
  split
  · next digit => exact .inl ⟨digit.1, digit.2, rfl⟩
  · next noDigit =>
    split
    · next small => exact .inr (.inl ⟨small.1, small.2, rfl⟩)
    · next noSmall =>
      split
      · next capital => exact .inr (.inr (.inl ⟨capital.1, capital.2, rfl⟩))
      · next noCapital => exact .inr (.inr (.inr ⟨noDigit, noSmall, noCapital, rfl⟩))

/-- The octal digits are those that the reader knows. -/
theorem mem_octalDigits {c : CodePoint} : c ∈ octalDigits ↔ isOctalDigit c = true := by
  have values : octalDigits.map CodePoint.value = [48, 49, 50, 51, 52, 53, 54, 55] := rfl
  rw [mem_iff_value, values, isOctalDigit]
  simp only [List.mem_cons, List.not_mem_nil, or_false]
  rcases digitValue?_cases c with
    ⟨low, high, is⟩ | ⟨low, high, is⟩ | ⟨low, high, is⟩ | ⟨_, _, _, is⟩
  all_goals
    simp only [is, Option.any_some, Option.any_none, decide_eq_true_eq, Bool.false_eq_true,
      iff_false]
    omega

/-- The hexadecimal digits are those that the reader knows. -/
theorem mem_hexDigits {c : CodePoint} : c ∈ hexDigits ↔ isHexDigit c = true := by
  have values : hexDigits.map CodePoint.value =
      [48, 49, 50, 51, 52, 53, 54, 55, 56, 57, 65, 66, 67, 68, 69, 70, 97, 98, 99, 100, 101,
        102] := rfl
  rw [mem_iff_value, values, isHexDigit]
  simp only [List.mem_cons, List.not_mem_nil, or_false]
  rcases digitValue?_cases c with
    ⟨low, high, is⟩ | ⟨low, high, is⟩ | ⟨low, high, is⟩ | ⟨_, _, _, is⟩
  all_goals
    simp only [is, Option.isSome_some, Option.isSome_none, Bool.false_eq_true, iff_true, iff_false]
    omega

/-- A piece is as long as its text. -/
theorem Piece.written_length (piece : Piece) : piece.written.length = piece.size := by
  cases piece <;> simp only [written, size, List.length_cons, List.length_append, List.length_nil]
  all_goals omega

theorem IsEscape.begins {piece : Piece} (is : IsEscape piece) :
    ∃ unit, piece.written = backslash :: unit := by
  cases is <;> exact ⟨_, rfl⟩

/-- A simple escape is in the table. -/
theorem simpleEscape?_some {c : CodePoint} {value : Char} (found : simpleEscape? c = some value) :
    ∃ letter, c = .ofChar letter ∧ (letter, value) ∈ simpleEscapes := by
  obtain ⟨⟨letter, shown⟩, entry, rfl⟩ := Option.map_eq_some_iff.mp found
  have is := List.find?_some entry
  exact ⟨letter, is_iff.mp is, List.mem_of_find?_eq_some entry⟩

/-- Digits between braces stand at the front. -/
theorem bracesDigits_front {rest : Text} (braces : bracesDigits rest = true) :
    pointDigits rest ≠ [] ∧
      .ofChar '\x7b' :: (pointDigits rest ++ [.ofChar '\x7d']) <+: rest := by
  obtain ⟨opens, closed⟩ := Bool.and_eq_true_iff.mp braces
  obtain ⟨filled, closes⟩ := Bool.and_eq_true_iff.mp closed
  cases rest with
  | nil => cases opens
  | cons c tail =>
      obtain rfl := is_iff.mp opens
      have digits : pointDigits (.ofChar '\x7b' :: tail) = tail.takeWhile isHexDigit := rfl
      have whole := List.prefix_iff_eq_append.mp (List.takeWhile_prefix isHexDigit (l := tail))
      rw [digits] at filled closes ⊢
      rw [Nat.add_comm, List.drop_succ_cons] at closes
      cases behind : tail.drop (tail.takeWhile isHexDigit).length with
      | nil =>
          rw [behind] at closes
          cases closes
      | cons d more =>
          rw [behind] at closes whole
          obtain rfl := is_iff.mp closes
          refine ⟨by simpa using filled, List.cons_prefix_cons.mpr ⟨rfl, more, ?_⟩⟩
          rw [List.append_assoc]
          exact whole

/-- What is found behind a backslash is an escape, and it stands there. -/
theorem escape?_leads {text : Text} {piece : Piece} (found : escape? text = some piece) :
    IsEscape piece ∧ piece.written <+: backslash :: text := by
  have all {test : CodePoint → Bool} {text : Text} {c : CodePoint} (count : Nat)
      (member : c ∈ (text.takeWhile test).take count) : test c = true :=
    List.mem_takeWhile_imp (List.mem_of_mem_take member)
  have front (test : CodePoint → Bool) (text : Text) (count : Nat) :
      (text.takeWhile test).take count <+: text :=
    (List.take_prefix _ _).trans (List.takeWhile_prefix _)
  cases text with
  | nil => cases found
  | cons c rest =>
      rw [escape?_cons] at found
      split at found
      · next value simple =>
        obtain ⟨letter, rfl, listed⟩ := simpleEscape?_some simple
        cases found
        exact ⟨.simple listed, rest, rfl⟩
      · split at found
        · next octal =>
          cases found
          refine ⟨.octal ?_ (List.length_take_le _ _) ?_, ?_⟩
          · rw [List.takeWhile_cons, octal]
            exact List.cons_ne_nil _ _
          · exact fun d member => mem_octalDigits.mpr (all 3 member)
          · exact List.cons_prefix_cons.mpr ⟨rfl, front _ _ _⟩
        · split at found
          · next letter =>
            obtain rfl := is_iff.mp letter
            split at found
            · cases found
            · next digits filled =>
              cases found
              refine ⟨.hex filled (List.length_take_le _ _) ?_, ?_⟩
              · exact fun d member => mem_hexDigits.mpr (all 2 member)
              · exact List.cons_prefix_cons.mpr
                  ⟨rfl, List.cons_prefix_cons.mpr ⟨rfl, front _ _ _⟩⟩
          · split at found
            · next braces =>
              cases found
              obtain ⟨letter, digits⟩ := Bool.and_eq_true_iff.mp braces
              obtain rfl := is_iff.mp letter
              obtain ⟨filled, stands⟩ := bracesDigits_front digits
              refine ⟨.point filled fun d member => ?_, ?_⟩
              · exact mem_hexDigits.mpr (List.mem_takeWhile_imp member)
              · exact List.cons_prefix_cons.mpr ⟨rfl, List.cons_prefix_cons.mpr ⟨rfl, stands⟩⟩
            · cases found

theorem simpleEscape?_entry :
    ∀ entry ∈ simpleEscapes, simpleEscape? (.ofChar entry.1) = some entry.2 := by decide

/-- A run of digits with a limit goes on behind the digits at its front. -/
theorem take_takeWhile_append {test : CodePoint → Bool} {digits : Text}
    (all : ∀ c ∈ digits, test c = true) {limit : Nat} (short : digits.length ≤ limit)
    (rest : Text) :
    ((digits ++ rest).takeWhile test).take limit =
      digits ++ (rest.takeWhile test).take (limit - digits.length) := by
  rw [List.takeWhile_append_of_pos all, List.take_append, List.take_of_length_le short]

/-- Where an escape stands, it is found, or else a longer one that begins with it. -/
theorem IsEscape.found {piece : Piece} (is : IsEscape piece) (rest : Text) :
    ∃ unit found more, piece.written = backslash :: unit ∧ escape? (unit ++ rest) = some found ∧
      found.written = piece.written ++ more ∧ (more = [] → found = piece) := by
  cases is with
  | @simple letter value listed =>
      refine ⟨[.ofChar letter], _, [], rfl, ?_, (List.append_nil _).symm, fun _ => rfl⟩
      rw [List.singleton_append, escape?_cons, simpleEscape?_entry _ listed]
  | @octal digits filled short all =>
      obtain ⟨c, others, rfl⟩ := List.exists_cons_of_ne_nil filled
      have own : ∀ d ∈ c :: others, isOctalDigit d = true :=
        fun d member => mem_octalDigits.mp (all d member)
      have noSimple : ∀ d ∈ octalDigits, simpleEscape? d = none := by decide
      let more := (rest.takeWhile isOctalDigit).take (3 - (c :: others).length)
      refine ⟨c :: others, .octal (c :: others ++ more), more, rfl, ?_, rfl, fun none => ?_⟩
      · rw [List.cons_append, escape?_cons, noSimple c (all c List.mem_cons_self)]
        simp only [own c List.mem_cons_self, if_true, ← List.cons_append]
        rw [take_takeWhile_append own short rest]
      · rw [none, List.append_nil]
  | @hex digits filled short all =>
      have own : ∀ d ∈ digits, isHexDigit d = true :=
        fun d member => mem_hexDigits.mp (all d member)
      have noSimple : simpleEscape? (.ofChar 'x') = none := rfl
      have noOctal : isOctalDigit (.ofChar 'x') = false := rfl
      have taken := take_takeWhile_append own short rest
      obtain ⟨c, others, rfl⟩ := List.exists_cons_of_ne_nil filled
      let more := (rest.takeWhile isHexDigit).take (2 - (c :: others).length)
      refine ⟨_, .hex (c :: others ++ more), more, rfl, ?_, rfl, fun none => ?_⟩
      · rw [List.cons_append, escape?_cons, noSimple]
        simp only [noOctal, taken, is_ofChar, decide_true, if_true, Bool.false_eq_true, if_false]
        rfl
      · rw [none, List.append_nil]
  | @point digits filled all =>
      have own : ∀ d ∈ digits, isHexDigit d = true :=
        fun d member => mem_hexDigits.mp (all d member)
      have noSimple : simpleEscape? (.ofChar 'u') = none := rfl
      have noOctal : isOctalDigit (.ofChar 'u') = false := rfl
      have noHex : (CodePoint.ofChar 'u').is 'x' = false := rfl
      obtain ⟨taken, braces⟩ := bracesDigits_written filled own rest
      refine ⟨_, .point digits, [], rfl, ?_, (List.append_nil _).symm, fun _ => rfl⟩
      simp only [List.cons_append, List.append_assoc, List.nil_append, escape?_cons, noSimple,
        noOctal, noHex, taken, braces, is_ofChar, decide_true, Bool.and_true, if_true,
        Bool.false_eq_true, if_false]

/-- No escape at a place is longer than the one that is found there. -/
theorem IsEscape.le_found {piece found : Piece} (is : IsEscape piece) {text : Text}
    (stands : piece.written <+: backslash :: text) (here : escape? text = some found) :
    piece.written.length ≤ found.written.length := by
  obtain ⟨rest, whole⟩ := stands
  obtain ⟨unit, other, more, written, first, longer, -⟩ := is.found rest
  rw [written, List.cons_append, List.cons.injEq] at whole
  rw [← whole.2, first] at here
  cases here
  rw [longer, List.length_append]
  exact Nat.le_add_right _ _

/-- Where an escape stands, the reader finds one. -/
theorem IsEscape.not_none {piece : Piece} (is : IsEscape piece) {c : CodePoint} {text : Text}
    (stands : piece.written <+: c :: text) : c = backslash ∧ escape? text ≠ none := by
  obtain ⟨rest, whole⟩ := stands
  obtain ⟨unit, found, more, written, first, -⟩ := is.found rest
  rw [written, List.cons_append, List.cons.injEq] at whole
  rw [← whole.2, first]
  exact ⟨whole.1.symm, Option.some_ne_none found⟩

/-- A body divides into the pieces that a scan meets. -/
theorem scanned_pieces (body : Text) : Scanned body (pieces body) := by
  induction length : body.length using Nat.strongRecOn generalizing body with
  | ind bound inductionHypothesis =>
  subst length
  cases body with
  | nil => exact .done
  | cons c rest =>
      have plain (noEscape : ∀ escape, IsEscape escape → ¬escape.written <+: c :: rest)
          (is : pieceAt c rest = .plain c) : Scanned (c :: rest) (pieces (c :: rest)) := by
        rw [pieces_cons, is]
        exact .plain noEscape (inductionHypothesis _ (Nat.lt_succ_self _) rest rfl)
      by_cases begins : c = backslash
      · subst begins
        cases here : escape? rest with
        | none =>
            refine plain (fun escape is stands => (is.not_none stands).2 here) ?_
            rw [pieceAt_backslash, here]
            rfl
        | some piece =>
            obtain ⟨is, behind, whole⟩ := escape?_leads here
            have own : pieceAt backslash rest = piece := by
              rw [pieceAt_backslash, here]
              rfl
            have after : rest.drop (piece.size - 1) = behind := by
              obtain ⟨unit, written⟩ := is.begins
              rw [written, List.cons_append, List.cons.injEq] at whole
              rw [← piece.written_length, written, List.length_cons, Nat.add_sub_cancel, ← whole.2,
                List.drop_left]
            have shorter : behind.length < (backslash :: rest).length := by
              have positive := size_positive piece
              rw [← whole, List.length_append, piece.written_length]
              omega
            rw [pieces_cons, own, after, ← whole]
            refine .escape is (fun other isOther stands => ?_)
              (inductionHypothesis _ shorter behind rfl)
            rw [whole] at stands
            exact isOther.le_found stands here
      · exact plain (fun escape is stands => begins (is.not_none stands).1)
          (pieceAt_plain begins rest)

/-- No other row of pieces is met. -/
theorem Scanned.eq_pieces {body : Text} {row : List Piece} (scanned : Scanned body row) :
    row = pieces body := by
  induction scanned with
  | done => rfl
  | @escape piece rest row is longest later inductionHypothesis =>
      obtain ⟨unit, found, more, written, here, longer, same⟩ := is.found rest
      -- What is found is an escape too, so that it is not longer.
      have whole : backslash :: (unit ++ rest) = piece.written ++ rest := by rw [written]; rfl
      obtain ⟨isFound, stands⟩ := escape?_leads here
      have short := longest found isFound (whole ▸ stands)
      rw [longer, List.length_append] at short
      obtain rfl := same (List.eq_nil_of_length_eq_zero (by omega))
      have size : found.size = unit.length + 1 := by
        rw [← found.written_length, written, List.length_cons]
      rw [← whole, pieces_unit unit (by rw [pieceAt_backslash, here]; rfl) size,
        inductionHypothesis]
  | @plain c rest row noEscape later inductionHypothesis =>
      have is : pieceAt c rest = .plain c := by
        by_cases begins : c = backslash
        · subst begins
          rw [pieceAt_backslash]
          cases here : escape? rest with
          | none => rfl
          | some piece =>
              obtain ⟨isEscape, stands⟩ := escape?_leads here
              exact absurd stands (noEscape piece isEscape)
        · exact pieceAt_plain begins rest
      rw [pieces_cons, is, inductionHypothesis]
      rfl

/-- The pieces of a body are its only scan. -/
theorem scanned_iff {body : Text} {row : List Piece} : Scanned body row ↔ row = pieces body :=
  ⟨Scanned.eq_pieces, fun is => is ▸ scanned_pieces body⟩

/-- A scan meets characters and escapes. -/
theorem Scanned.plain_or_escape {body : Text} {row : List Piece} (scanned : Scanned body row) :
    ∀ piece ∈ row, (∃ c, piece = .plain c) ∨ IsEscape piece := by
  induction scanned with
  | done => simp
  | escape is longest later inductionHypothesis =>
      exact List.forall_mem_cons.mpr ⟨.inr is, inductionHypothesis⟩
  | @plain c rest row noEscape later inductionHypothesis =>
      exact List.forall_mem_cons.mpr ⟨.inl ⟨c, rfl⟩, inductionHypothesis⟩

/-- An escape has one character as its value, or it is a quote that is kept. -/
theorem IsEscape.contributes {escapesQuote : Bool} {piece : Piece} {text : Text}
    (is : IsEscape piece) (value : piece.value escapesQuote = .ok text) :
    Contributes escapesQuote piece text := by
  cases is with
  | @simple letter shown listed =>
      simp only [Piece.value, is_ofChar] at value
      split at value
      · next kept =>
        simp only [Bool.and_eq_true, decide_eq_true_eq, Bool.not_eq_true'] at kept
        obtain ⟨rfl, kept⟩ := kept
        cases value
        exact .keptQuote shown kept
      · next escaped =>
        cases value
        refine .escape _ (.simple listed) ?_
        cases escapesQuote with
        | true => exact .inl rfl
        | false =>
            refine .inr fun same => escaped ?_
            have quote : CodePoint.ofChar letter = .ofChar '"' := by
              simpa [Piece.written] using same
            simp [CodePoint.ofCharInjective quote]
  | octal filled short all =>
      cases value
      refine .escape _ (.octal filled short all) (.inr fun same => ?_)
      have digit : CodePoint.ofChar '"' ∈ octalDigits := all _ (by
        rw [(List.cons.inj same).2]
        exact List.mem_singleton_self _)
      revert digit
      decide
  | hex filled short all =>
      cases value
      refine .escape _ (.hex filled short all) (.inr fun same => ?_)
      have letter := (List.cons.inj (List.cons.inj same).2).1
      revert letter
      decide
  | @point digits filled all =>
      simp only [Piece.value, codePoint] at value
      split at value
      · cases value
        refine .escape _ (.point filled all) (.inr fun same => ?_)
        have letter := (List.cons.inj (List.cons.inj same).2).1
        revert letter
        decide
      · cases value

/-- A piece that has a value adds it to the text. -/
theorem contributes_of_value {escapesQuote : Bool} {piece : Piece} {text : Text}
    (met : (∃ c, piece = .plain c) ∨ IsEscape piece)
    (value : piece.value escapesQuote = .ok text) : Contributes escapesQuote piece text := by
  rcases met with ⟨c, rfl⟩ | is
  · cases value
    exact .plain c
  · exact is.contributes value

/-- The size of the number tells how an escape fails. -/
theorem Oversized.fault {n : Nat} {e : EscapeError} (oversized : Oversized n e) :
    e.fault = if n ≤ 0x7FFFFFFF then .value else .overflow := by
  have limit : integerLimit = 0x7FFFFFFF := rfl
  cases oversized with
  | beyondUnicode great fits => rw [if_pos (by omega), EscapeError.fault]
  | beyondInteger great => rw [if_neg (by omega), EscapeError.fault]

/-- An escape beyond the last code point fails. -/
theorem oversized_exists {n : Nat} (great : 0x10FFFF < n) : ∃ e, Oversized n e := by
  by_cases fits : n ≤ integerLimit
  · exact ⟨_, .beyondUnicode great fits⟩
  · exact ⟨_, .beyondInteger (Nat.lt_of_not_le fits)⟩

/-- A body is read just when its pieces are, and its text is made of theirs. -/
theorem unescapeDouble_eq_ok {escapesQuote : Bool} {body text : Text} :
    unescapeDouble escapesQuote body = .ok text ↔ ∃ texts,
      List.Forall₂ (fun piece own => piece.value escapesQuote = .ok own) (pieces body) texts ∧
        texts.flatten = text := by
  rw [unescapeDouble, map_ok_iff]
  exact exists_congr fun texts => and_congr_left fun _ => mapM_ok_iff

/-- There is one scan of a body. The body cannot be read just when the scan meets an escape beyond
the last code point, and the first of these decides the fault. Otherwise the text has a character
for each character outside of the escapes and one for each escape, in their order. -/
theorem unescapeDouble_scanned (escapesQuote : Bool) (body : Text) :
    ∃ row, (∀ other, Scanned body other ↔ other = row) ∧
      ((∃ e, unescapeDouble escapesQuote body = .error e) ↔
        ∃ digits, .point digits ∈ row ∧ 0x10FFFF < number 16 digits) ∧
      (∀ before digits after, row = before ++ .point digits :: after →
        (∀ earlier, .point earlier ∈ before → number 16 earlier ≤ 0x10FFFF) →
        0x10FFFF < number 16 digits →
        ∃ e, unescapeDouble escapesQuote body = .error e ∧
          e.fault = if number 16 digits ≤ 0x7FFFFFFF then .value else .overflow) ∧
      ((∀ digits, .point digits ∈ row → number 16 digits ≤ 0x10FFFF) →
        ∃ texts, unescapeDouble escapesQuote body = .ok texts.flatten ∧
          List.Forall₂ (Contributes escapesQuote) row texts) := by
  have met := (scanned_pieces body).plain_or_escape
  have decided (before : List Piece) (digits : Text) (after : List Piece)
      (joined : pieces body = before ++ .point digits :: after)
      (sound : ∀ earlier, .point earlier ∈ before → number 16 earlier ≤ 0x10FFFF)
      (great : 0x10FFFF < number 16 digits) :
      ∃ e, unescapeDouble escapesQuote body = .error e ∧
        e.fault = if number 16 digits ≤ 0x7FFFFFFF then .value else .overflow := by
    obtain ⟨e, oversized⟩ := oversized_exists great
    refine ⟨e, unescapeDouble_eq_error.mpr ⟨before, digits, after, joined, ?_, oversized⟩,
      oversized.fault⟩
    exact fun earlier member => Nat.lt_succ_of_le (sound earlier member)
  have returned (fits : ∀ digits, .point digits ∈ pieces body → number 16 digits ≤ 0x10FFFF) :
      ∃ texts, unescapeDouble escapesQuote body = .ok texts.flatten ∧
        List.Forall₂ (Contributes escapesQuote) (pieces body) texts := by
    have each : ∀ piece ∈ pieces body, ∃ own, piece.value escapesQuote = .ok own :=
      fun piece member => value_eq_ok.mpr fun digits is =>
        Nat.lt_succ_of_le (fits digits (is ▸ member))
    obtain ⟨texts, values⟩ := mapM_eq_ok.mpr each
    rw [mapM_ok_iff] at values
    refine ⟨texts, unescapeDouble_eq_ok.mpr ⟨texts, values, rfl⟩, ?_⟩
    exact ((List.forall₂_and_left _ _).mpr ⟨met, values⟩).imp fun piece own both =>
      contributes_of_value both.1 both.2
  refine ⟨pieces body, fun other => scanned_iff, ?_, decided, returned⟩
  constructor
  · rintro ⟨e, failed⟩
    obtain ⟨before, digits, after, joined, -, oversized⟩ := unescapeDouble_eq_error.mp failed
    refine ⟨digits, by simp [joined], ?_⟩
    have limit : integerLimit = 0x7FFFFFFF := rfl
    cases oversized <;> omega
  · rintro ⟨digits, member, great⟩
    cases told : unescapeDouble escapesQuote body with
    | error e => exact ⟨e, rfl⟩
    | ok text =>
        obtain ⟨texts, values, -⟩ := unescapeDouble_eq_ok.mp told
        have all := mapM_eq_ok.mp ⟨texts, mapM_ok_iff.mpr values⟩
        have fits := value_eq_ok.mp (all _ member) digits rfl
        omega

/-- A doubled backslash hides what looks like an escape, and an octal escape takes three digits. The
first escape beyond the last code point is followed by one that is a fault of another kind. -/
def twoFaults : Text :=
  "\\\\u\x7b110000\x7d\\1234\\u\x7b110000\x7d\\u\x7b80000000\x7d"

/-- An escaped quote, and an escape that takes a single digit. -/
def keptQuote : Text := "a\\\"\\x4g"

/-- The first escape that is too great tells how a body fails. -/
theorem unescapeDouble_scanned_twoFaults :
    ∃ before after, pieces twoFaults = before ++ .point "110000" :: after ∧
      (∀ earlier, .point earlier ∈ before → number 16 earlier ≤ 0x10FFFF) ∧
      0x10FFFF < number 16 "110000" ∧
      (∃ e, unescapeDouble true twoFaults = .error e ∧ e.fault = .value) ∧
      (∀ digits, .point digits ∈ pieces keptQuote → number 16 digits ≤ 0x10FFFF) ∧
      ∃ texts, unescapeDouble false keptQuote = .ok texts.flatten ∧
        List.Forall₂ (Contributes false) (pieces keptQuote) texts := by
  let before : List Piece := (pieces twoFaults).take 12
  let after : List Piece := (pieces twoFaults).drop 13
  have divided : pieces twoFaults = before ++ .point "110000" :: after := by decide +kernel
  have sound : ∀ earlier, .point earlier ∈ before → number 16 earlier ≤ 0x10FFFF := by
    have none : before.all (fun piece => match piece with | .point _ => false | _ => true) =
        true := by
      decide +kernel
    intro earlier member
    cases List.all_eq_true.mp none _ member
  have great : 0x10FFFF < number 16 "110000" := by decide
  have fits : ∀ digits, .point digits ∈ pieces keptQuote → number 16 digits ≤ 0x10FFFF := by
    have is : pieces keptQuote = [.plain (.ofChar 'a'), .simple (.ofChar '"') '"', .hex "4",
        .plain (.ofChar 'g')] := by decide
    simp [is]
  obtain ⟨row, scan, -, fails, -⟩ := unescapeDouble_scanned true twoFaults
  obtain ⟨row', scan', -, -, returns⟩ := unescapeDouble_scanned false keptQuote
  obtain rfl := (scan _).mp (scanned_pieces twoFaults)
  obtain rfl := (scan' _).mp (scanned_pieces keptQuote)
  exact ⟨before, after, divided, sound, great, fails before _ after divided sound great, fits,
    returns fits⟩

end Untranslated.Php.Literal
