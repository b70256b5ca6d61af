/-
This file proves that any depth is deep enough to lower a template that is shorter.
So a template is lowered segment by segment, and each piece of a tag like a template of its own.
-/

import Untranslated.Proofs.Blade.Structured
import Mathlib.Data.List.Basic

namespace Untranslated.Blade

section

variable {first second : List Char → List Char}

/-- A tag is lowered alike by two lowerings that agree on the texts inside it. -/
theorem Tag.lowered_congr {cs : List Char}
    (same : ∀ piece, piece.length ≤ cs.length → first piece = second piece) :
    (Tag.ofChars cs).lowered first = (Tag.ofChars cs).lowered second := by
  rw [Tag.lowered, Tag.lowered, same _ (Tag.start_length cs)]
  refine congrArg (second (Tag.ofChars cs).start ++ ·) (List.flatMap_congr fun entry member => ?_)
  exact congrArg (code _ ++ ·) (same entry.2 (Tag.piece_length member))

/-- A segment is lowered alike by two lowerings that agree on shorter texts. -/
theorem Segment.lowered_congr {segment : Segment}
    (same : ∀ piece, piece.length < segment.written.length → first piece = second piece) :
    segment.lowered first = segment.lowered second := by
  cases segment with
  | component name tag =>
      have inner : (Tag.ofChars tag).lowered first = (Tag.ofChars tag).lowered second :=
        Tag.lowered_congr fun piece shorter => same piece (by
          unfold Segment.written
          simp
          omega)
      exact congrArg ("<x-".toList ++ name ++ ·) inner
  | _ => rfl

end

/-- All depths beyond the length of a text lower it alike. -/
theorem lowerToDepth_deep (extra : List Text) {depth other : Nat} {cs : List Char}
    (deep : cs.length < depth) (alsoDeep : cs.length < other) :
    lowerToDepth extra depth cs = lowerToDepth extra other cs := by
  induction depth generalizing other cs with
  | zero => omega
  | succ depth inductionHypothesis =>
      obtain _ | other := other
      · omega
      · refine List.flatMap_congr fun segment member =>
          Segment.lowered_congr fun piece shorter => ?_
        have length := segments_length member
        exact inductionHypothesis (by omega) (by omega)

/-- A template is lowered by its segments, and the pieces of its tags are lowered like templates. -/
theorem lower_eq (extra : List Text) (template : List Char) :
    lower extra template = loweredFrom (lower extra) extra none template := by
  refine List.flatMap_congr fun segment member => Segment.lowered_congr fun piece shorter => ?_
  have length := segments_length member
  exact lowerToDepth_deep extra (by omega) (Nat.lt_succ_self _)

end Untranslated.Blade
