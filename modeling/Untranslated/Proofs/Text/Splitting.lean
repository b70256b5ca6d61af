/-
This file proves how texts that are joined from pieces are split again.
-/

import Mathlib.Data.List.Induction
import Untranslated.Text.Blank
import Untranslated.Text.Word

namespace Untranslated.Text

section

variable {test : CodePoint → Bool}

/-- A run ends where its test fails. -/
theorem takeWhile_stop {front : Text} {stop : CodePoint} (all : ∀ c ∈ front, test c = true)
    (ends : test stop = false) (rest : Text) : (front ++ stop :: rest).takeWhile test = front := by
  rw [List.takeWhile_append_of_pos all, List.takeWhile_cons, ends]
  simp

/-- What is left behind a run begins where its test fails. -/
theorem dropWhile_stop {front : Text} {stop : CodePoint} (all : ∀ c ∈ front, test c = true)
    (ends : test stop = false) (rest : Text) :
    (front ++ stop :: rest).dropWhile test = stop :: rest := by
  rw [List.dropWhile_append_of_pos all, List.dropWhile_cons, ends]
  simp

/-- A run at the front does not reach a last character that stops it. -/
theorem dropWhile_snoc {stop : CodePoint} (ends : test stop = false) (t : Text) :
    (t ++ [stop]).dropWhile test = t.dropWhile test ++ [stop] := by
  induction t with
  | nil => simp [ends]
  | cons c t inductionHypothesis =>
      rw [List.cons_append, List.dropWhile_cons, List.dropWhile_cons]
      split
      · exact inductionHypothesis
      · rfl

/-- No run begins at a front without characters of it. -/
theorem dropWhile_front {front : Text} (filled : front ≠ []) (none : ∀ c ∈ front, test c = false)
    (rest : Text) : (front ++ rest).dropWhile test = front ++ rest := by
  obtain ⟨c, others, rfl⟩ := List.exists_cons_of_ne_nil filled
  rw [List.cons_append, List.dropWhile_cons, none c List.mem_cons_self]
  rfl

/-- Nothing is left out where the test never holds. -/
theorem dropWhile_none {t : Text} (none : ∀ c ∈ t, test c = false) : t.dropWhile test = t := by
  cases t with
  | nil => rfl
  | cons c rest =>
      rw [List.dropWhile_cons, none c List.mem_cons_self]
      rfl

/-- A split text has a piece at least. -/
theorem splitWhere_filled (t : Text) : splitWhere test t ≠ [] := by
  cases t with
  | nil => exact List.cons_ne_nil _ _
  | cons c rest =>
      rw [splitWhere]
      split
      · exact List.cons_ne_nil _ _
      · split <;> exact List.cons_ne_nil _ _

/-- The pieces on both sides of a place that is cut. -/
theorem splitWhere_append {mark : CodePoint} (cuts : test mark = true) (front rest : Text) :
    splitWhere test (front ++ mark :: rest) = splitWhere test front ++ splitWhere test rest := by
  induction front with
  | nil =>
      change splitWhere test (mark :: rest) = [] :: splitWhere test rest
      rw [splitWhere, if_pos cuts]
  | cons c front inductionHypothesis =>
      rw [List.cons_append, splitWhere, splitWhere, inductionHypothesis]
      split
      · rfl
      · cases own : splitWhere test front with
        | nil => exact absurd own (splitWhere_filled front)
        | cons piece pieces => rfl

/-- A text without a mark is one piece. -/
theorem splitWhere_single {piece : Text} (whole : ∀ c ∈ piece, test c = false) :
    splitWhere test piece = [piece] := by
  induction piece with
  | nil => rfl
  | cons c piece inductionHypothesis =>
      obtain ⟨first, others⟩ := List.forall_mem_cons.mp whole
      rw [splitWhere, first, inductionHypothesis others]
      simp

/-- A text is split on either side of a mark. -/
theorem splitAtChar_append (mark : Char) (front rest : Text) :
    splitAtChar mark (front ++ .ofChar mark :: rest) =
      splitAtChar mark front ++ splitAtChar mark rest :=
  splitWhere_append (by simp) front rest

/-- A text without the mark is one piece. -/
theorem splitAtChar_single {mark : Char} {piece : Text} (whole : CodePoint.ofChar mark ∉ piece) :
    splitAtChar mark piece = [piece] := by
  refine splitWhere_single fun c inside => beq_eq_false_iff_ne.mpr fun same => ?_
  subst same
  exact whole inside

/-- No piece has a character in it that cuts. -/
theorem mem_splitWhere {t piece : Text} (member : piece ∈ splitWhere test t) :
    ∀ c ∈ piece, test c = false := by
  induction t generalizing piece with
  | nil =>
      obtain rfl := List.mem_singleton.mp member
      exact fun c inside => absurd inside List.not_mem_nil
  | cons c t inductionHypothesis =>
      rw [splitWhere] at member
      split at member
      · rcases List.mem_cons.mp member with rfl | later
        · exact fun c inside => absurd inside List.not_mem_nil
        · exact inductionHypothesis later
      · next goes =>
        rw [Bool.not_eq_true] at goes
        split at member
        · obtain rfl := List.mem_singleton.mp member
          simpa using goes
        · next first pieces own =>
          rw [own] at inductionHypothesis
          rcases List.mem_cons.mp member with rfl | later
          · exact List.forall_mem_cons.mpr ⟨goes, inductionHypothesis List.mem_cons_self⟩
          · exact inductionHypothesis (List.mem_cons_of_mem first later)

/-- Splitting undoes joining where no piece has the mark in it. -/
theorem splitWhere_join {mark : CodePoint} (cuts : test mark = true) {pieces : List Text}
    (filled : pieces ≠ []) (whole : ∀ piece ∈ pieces, ∀ c ∈ piece, test c = false) :
    splitWhere test (join [mark] pieces) = pieces := by
  induction pieces with
  | nil => exact absurd rfl filled
  | cons first rest inductionHypothesis =>
      obtain ⟨here, others⟩ := List.forall_mem_cons.mp whole
      cases rest with
      | nil => exact splitWhere_single here
      | cons second rest =>
          have later := inductionHypothesis (List.cons_ne_nil second rest) others
          rw [join, List.append_assoc, List.singleton_append, splitWhere_append cuts,
            splitWhere_single here, later]
          · rfl
          · exact List.cons_ne_nil second rest

/-- What is in joined pieces is in a separator or in a piece. -/
theorem mem_join {separator : Text} {c : CodePoint} {pieces : List Text}
    (member : c ∈ join separator pieces) : c ∈ separator ∨ ∃ piece ∈ pieces, c ∈ piece := by
  induction pieces with
  | nil => cases member
  | cons first rest inductionHypothesis =>
      cases rest with
      | nil => exact .inr ⟨first, List.mem_singleton_self first, member⟩
      | cons second rest =>
          rw [join, List.mem_append, List.mem_append] at member
          · rcases member with (own | between) | later
            · exact .inr ⟨first, List.mem_cons_self, own⟩
            · exact .inl between
            · rcases inductionHypothesis later with between | ⟨piece, inside, own⟩
              · exact .inl between
              · exact .inr ⟨piece, List.mem_cons_of_mem first inside, own⟩
          · exact List.cons_ne_nil second rest

/-- The last piece stands behind the others and their marks. -/
theorem join_append_singleton (separator : Text) (front : List Text) (last : Text) :
    join separator (front ++ [last]) = front.flatMap (· ++ separator) ++ last := by
  induction front with
  | nil => rfl
  | cons first front inductionHypothesis =>
      rw [List.cons_append, join, inductionHypothesis]
      · simp
      · simp

/-- What is in front of the first piece stands in front of all. -/
theorem join_cons_append (separator front first : Text) (rest : List Text) :
    join separator ((front ++ first) :: rest) = front ++ join separator (first :: rest) := by
  cases rest <;> simp [join]

/-- Joining undoes splitting. -/
theorem join_splitAtChar (mark : Char) (t : Text) :
    join [.ofChar mark] (splitAtChar mark t) = t := by
  induction t with
  | nil => rfl
  | cons c rest inductionHypothesis =>
      unfold splitAtChar at inductionHypothesis ⊢
      have filled : splitWhere (· == CodePoint.ofChar mark) rest ≠ [] := splitWhere_filled rest
      obtain ⟨first, pieces, own⟩ := List.exists_cons_of_ne_nil filled
      rw [own] at inductionHypothesis
      rw [splitWhere, own]
      split
      · next cuts =>
        obtain rfl : c = .ofChar mark := by simpa using cuts
        rw [join, inductionHypothesis]
        · rfl
        · exact List.cons_ne_nil first pieces
      · exact (join_cons_append [.ofChar mark] [c] first pieces).trans
          (congrArg (c :: ·) inductionHypothesis)

/-- A text ends with its last character. -/
theorem endsWith_singleton (c : CodePoint) (t : Text) :
    endsWith [c] t = (t.getLast? == some c) := by
  rw [endsWith, List.isSuffixOf, List.getLast?_eq_head?_reverse]
  cases t.reverse with
  | nil => rfl
  | cons last rest => simp [List.isPrefixOf, BEq.comm]

/-- What is joined ends as its last piece, or with the mark in front of an empty one. -/
theorem join_getLast? {mark c : CodePoint} (other : mark ≠ c) {pieces : List Text}
    (ends : (join [mark] pieces).getLast? = some c) :
    ∃ last ∈ pieces.getLast?, last.getLast? = some c := by
  induction pieces with
  | nil => cases ends
  | cons first rest inductionHypothesis =>
      cases rest with
      | nil => exact ⟨first, rfl, ends⟩
      | cons second rest =>
          rw [join, List.getLast?_append] at ends
          · cases later : (join [mark] (second :: rest)).getLast? with
            | none => simp [later, other] at ends
            | some last =>
                rw [later, Option.some_or] at ends
                rw [List.getLast?_cons_cons]
                exact inductionHypothesis (later.trans ends)
          · exact List.cons_ne_nil second rest

end

/-- White space belongs to no word. -/
theorem isWord_of_blank {c : CodePoint} (blank : isBlank c = true) : isWord c = false := by
  have apart : (blankRanges.flatMap fun range =>
      List.range' range.1 (range.2 + 1 - range.1)).all
        (!RangeTable.contains wordRanges ·) = true := by decide +kernel
  obtain ⟨⟨first, last⟩, member, bounds⟩ := List.any_eq_true.mp blank
  simp only [Bool.and_eq_true, decide_eq_true_eq] at bounds
  have one : c.value ∈ blankRanges.flatMap fun range =>
      List.range' range.1 (range.2 + 1 - range.1) :=
    List.mem_flatMap.mpr ⟨_, member, List.mem_range'_1.mpr ⟨bounds.1, by omega⟩⟩
  have outside := List.all_eq_true.mp apart _ one
  rw [Bool.not_eq_true'] at outside
  exact outside

/-- The words of ASCII consist of letters, digits and underscores. -/
theorem isWord_ascii {c : Char} (ascii : c.toNat < 128) :
    isWord (.ofChar c) = (c.isAlphanum || c == '_') := by
  have beyond : (wordRanges.drop 4).all (fun range => decide (128 ≤ range.1)) = true := by
    decide +kernel
  have parts : RangeTable.contains wordRanges c.toNat =
      (RangeTable.contains (wordRanges.take 4) c.toNat ||
        RangeTable.contains (wordRanges.drop 4) c.toNat) := by
    conv_lhs => rw [← List.take_append_drop 4 wordRanges]
    exact List.any_append
  have none : RangeTable.contains (wordRanges.drop 4) c.toNat = false := by
    refine List.any_eq_false.mpr fun range member inside => ?_
    have far := of_decide_eq_true (List.all_eq_true.mp beyond range member)
    simp only [Bool.and_eq_true, decide_eq_true_eq] at inside
    omega
  have all : ∀ n : Fin 128, RangeTable.contains (wordRanges.take 4) (Char.ofNat n).toNat =
      ((Char.ofNat n).isAlphanum || Char.ofNat n == '_') := by decide +kernel
  have own := all ⟨c.toNat, ascii⟩
  rw [Char.ofNat_toNat] at own
  exact parts.trans (by rw [none, Bool.or_false, own])

/-- Marks are no word characters. -/
theorem isWord_mark {mark : Char}
    (outside : mark.toNat < 128 ∧ mark.isAlphanum = false ∧ mark ≠ '_') :
    isWord (.ofChar mark) = false := by
  rw [isWord_ascii outside.1, outside.2.1, Bool.false_or, beq_eq_false_iff_ne]
  exact outside.2.2

/-- The same for characters. -/
theorem isWordChar_mark {mark : Char}
    (outside : mark.toNat < 128 ∧ mark.isAlphanum = false ∧ mark ≠ '_') :
    isWordChar mark = false :=
  isWord_mark outside

/-- A word character is no blank. -/
theorem isBlank_of_word {c : CodePoint} (word : isWord c = true) : isBlank c = false := by
  cases blank : isBlank c with
  | false => rfl
  | true =>
      rw [isWord_of_blank blank] at word
      cases word

section

variable {s t gap : Text}

/-- A blank splits the words of a text. -/
theorem words_append {c : CodePoint} (blank : isBlank c = true) (s t : Text) :
    words (s ++ c :: t) = words s ++ words t := by
  rw [words, splitWhere_append blank, List.filter_append]
  rfl

/-- Blanks in front of a text are no words. -/
theorem words_behind (blank : ∀ c ∈ gap, isBlank c = true) : words (gap ++ t) = words t := by
  induction gap with
  | nil => rfl
  | cons c gap inductionHypothesis =>
      obtain ⟨first, others⟩ := List.forall_mem_cons.mp blank
      rw [← inductionHypothesis others]
      exact words_append first [] (gap ++ t)

/-- The words around blanks. -/
theorem words_gap (filled : gap ≠ []) (blank : ∀ c ∈ gap, isBlank c = true) :
    words (s ++ (gap ++ t)) = words s ++ words t := by
  obtain ⟨c, rest, rfl⟩ := List.exists_cons_of_ne_nil filled
  obtain ⟨first, others⟩ := List.forall_mem_cons.mp blank
  rw [List.cons_append, words_append first, words_behind others]

/-- Blanks behind a text are no words. -/
theorem words_before (blank : ∀ c ∈ gap, isBlank c = true) : words (s ++ gap) = words s := by
  by_cases filled : gap = []
  · rw [filled, List.append_nil]
  · have both : words (s ++ (gap ++ [])) = words s ++ words [] := words_gap filled blank
    rw [List.append_nil] at both
    exact both.trans (List.append_nil _)

theorem words_single (filled : t ≠ []) (solid : ∀ c ∈ t, isBlank c = false) : words t = [t] := by
  rw [words, splitWhere_single solid]
  simp [filled]

/-- Only the end of a text is trimmed. -/
theorem trimEnd_append {drop : CodePoint → Bool} {middle back : Text}
    (goes : ∀ c ∈ back, drop c = true) (last : ∀ c ∈ middle.getLast?, drop c = false) :
    trimEnd drop (middle ++ back) = middle := by
  have reversed : ∀ c ∈ back.reverse, drop c = true := by simpa using goes
  have stays : middle.reverse.dropWhile drop = middle.reverse := by
    rw [List.getLast?_eq_head?_reverse] at last
    cases is : middle.reverse with
    | nil => rfl
    | cons c rest =>
        rw [is] at last
        rw [List.dropWhile_cons, last c rfl]
        rfl
  rw [trimEnd, List.reverse_append, List.dropWhile_append_of_pos reversed, stays,
    List.reverse_reverse]

/-- A text without blanks at its ends stays. -/
theorem strip_ends {t : Text} (head : ∀ c ∈ t.head?, isBlank c = false)
    (last : ∀ c ∈ t.getLast?, isBlank c = false) : strip t = t := by
  have stays : t.dropWhile isBlank = t := by
    cases t with
    | nil => rfl
    | cons c rest =>
        rw [List.dropWhile_cons, head c rfl]
        rfl
  have ends : trimEnd isBlank (t ++ []) = t := trimEnd_append (by simp) last
  rw [strip, trim, trimStart, stays, ← List.append_nil t, ends]
  simp

/-- A text without blanks stays. -/
theorem strip_solid (solid : ∀ c ∈ t, isBlank c = false) : strip t = t :=
  strip_ends (fun c head => solid c (List.mem_of_head? head))
    fun c last => solid c (List.mem_of_getLast? last)

/-- What is left of a text was in it. -/
theorem mem_strip {c : CodePoint} (member : c ∈ strip t) : c ∈ t := by
  have trimmed : c ∈ t.dropWhile isBlank :=
    List.mem_reverse.mp ((List.dropWhile_sublist _).mem (List.mem_reverse.mp member))
  exact (List.dropWhile_sublist _).mem trimmed

section

variable {cut : CodePoint → Bool} {c : CodePoint}

/-- A blank in front of the pieces is in no word. -/
theorem splitWhere_words_cons (blank : isBlank c = true) (goes : cut c = false) (t : Text) :
    (splitWhere cut (c :: t)).map words = (splitWhere cut t).map words := by
  rw [splitWhere, goes]
  cases own : splitWhere cut t with
  | nil => exact absurd own (splitWhere_filled t)
  | cons piece pieces => exact congrArg (· :: pieces.map words) (words_append blank [] piece)

/-- A character that does not cut goes to the last piece. -/
theorem splitWhere_snoc (goes : cut c = false) (t : Text) : ∃ front last,
    splitWhere cut t = front ++ [last] ∧ splitWhere cut (t ++ [c]) = front ++ [last ++ [c]] := by
  induction t with
  | nil =>
      refine ⟨[], [], rfl, ?_⟩
      change splitWhere cut [c] = [[c]]
      exact splitWhere_single (by simpa using goes)
  | cons d t inductionHypothesis =>
      obtain ⟨front, last, own, longer⟩ := inductionHypothesis
      rw [List.cons_append, splitWhere, splitWhere, own, longer]
      split
      · exact ⟨[] :: front, last, rfl, rfl⟩
      · cases front with
        | nil => exact ⟨[], d :: last, rfl, rfl⟩
        | cons piece front => exact ⟨(d :: piece) :: front, last, rfl, rfl⟩

/-- A blank behind the pieces is in no word. -/
theorem splitWhere_words_snoc (blank : isBlank c = true) (goes : cut c = false) (t : Text) :
    (splitWhere cut (t ++ [c])).map words = (splitWhere cut t).map words := by
  obtain ⟨front, last, own, longer⟩ := splitWhere_snoc goes t
  have same : words (last ++ [c]) = words last := words_before (by simpa using blank)
  rw [own, longer, List.map_append, List.map_append, List.map_singleton, List.map_singleton, same]

/-- Blanks at the ends change no word of the pieces. -/
theorem splitWhere_words_strip (apart : ∀ c, isBlank c = true → cut c = false) (t : Text) :
    (splitWhere cut (strip t)).map words = (splitWhere cut t).map words := by
  have start (t : Text) : (splitWhere cut (t.dropWhile isBlank)).map words =
      (splitWhere cut t).map words := by
    induction t with
    | nil => rfl
    | cons c t inductionHypothesis =>
        rw [List.dropWhile_cons]
        split
        · next blank =>
          rw [inductionHypothesis, splitWhere_words_cons blank (apart c blank)]
        · rfl
  have ending (t : Text) : (splitWhere cut (trimEnd isBlank t)).map words =
      (splitWhere cut t).map words := by
    induction t using List.reverseRecOn with
    | nil => rfl
    | append_singleton t c inductionHypothesis =>
        rw [trimEnd, List.reverse_append, List.reverse_singleton, List.singleton_append,
          List.dropWhile_cons]
        split
        · next blank =>
          rw [splitWhere_words_snoc blank (apart c blank)]
          exact inductionHypothesis
        · simp
  rw [strip, trim, ending, trimStart, start]

end

end

end Untranslated.Text
