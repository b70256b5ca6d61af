/-
This file tells what component tag stands at the front of a text and what it is lowered to.
-/

import Untranslated.Proofs.Blade.Depth
import Untranslated.Proofs.Blade.Tags

namespace Untranslated.Blade

/-- The name of a component as a tag may have it. -/
def IsComponentName (name : List Char) : Prop :=
  name ≠ [] ∧ ∀ c ∈ name, isAttributeCharacter c = true

instance (name : List Char) : Decidable (IsComponentName name) :=
  inferInstanceAs (Decidable (_ ∧ ∀ c ∈ name, _))

/-- The name of a component is at its end here. -/
def EndsName (following : List Char) : Prop :=
  ∀ c ∈ following.head?, isAttributeCharacter c = false

section

variable {cs name following : List Char} {segment : Segment}

/-- A component has the longest name that its mark can have, and its tag. -/
theorem component?_eq_some_iff : component? cs = some segment ↔
    ∃ name following, IsComponentName name ∧ EndsName following ∧
      cs = "<x-".toList ++ name ++ following ∧
      segment = .component name (following.take (tagLength none following)) := by
  constructor
  · intro found
    obtain ⟨rest, begins, named⟩ := Option.bind_eq_some_iff.mp found
    simp only at named
    split at named
    · cases named
    · next filled =>
      refine ⟨rest.takeWhile isAttributeCharacter, _, ⟨by simpa using filled,
        fun c member => List.mem_takeWhile_imp member⟩, fun c first => ?_, ?_,
        (Option.some.inj named).symm⟩
      · have head := List.head?_dropWhile_not isAttributeCharacter rest
        rw [← drop_takeWhile, first] at head
        exact head
      · rw [after?_eq_some.mp begins, List.append_assoc, takeWhile_append_drop]
  · rintro ⟨name, following, ⟨filled, letters⟩, ends, rfl, rfl⟩
    have begins : after? "<x-".toList ("<x-".toList ++ name ++ following) =
        some (name ++ following) := after?_eq_some.mpr (by simp)
    simp only [component?, begins, Option.bind_eq_bind, Option.bind_some,
      takeWhile_stops letters ends, List.drop_left]
    rw [if_neg (by simpa using filled)]

/-- A component tag is read up to the end of its attributes. -/
theorem segmentAt_component {extra : List Text} {previous : Option Char}
    (named : IsComponentName name) (ends : EndsName following) {c : Char} {tail : List Char}
    (joined : "<x-".toList ++ name ++ following = c :: tail) :
    segmentAt extra previous c tail =
      .component name (following.take (tagLength none following)) := by
  have noSign : c ≠ '@' := by
    have head : '<' = c := (List.cons.inj joined).1
    simp [← head]
  have component : component? (c :: tail) =
      some (.component name (following.take (tagLength none following))) :=
    component?_eq_some_iff.mpr ⟨name, following, named, ends, joined.symm, rfl⟩
  have noComment : comment? (c :: tail) = none := by rw [← joined]; rfl
  have noRaw : raw? (c :: tail) = none := by rw [← joined]; rfl
  have noEcho : echo? (c :: tail) = none := by rw [← joined]; rfl
  rw [segmentAt_unsigned noSign, noComment, noRaw, noEcho, component]
  rfl

/-- A component is lowered with its tag, and what follows the tag is lowered after it. -/
theorem loweredFrom_component (lowerPiece : List Char → List Char) (extra : List Text)
    (previous : Option Char) (named : IsComponentName name) {tag rest : List Char}
    (ends : EndsName (tag ++ rest)) (length : tagLength none (tag ++ rest) = tag.length) :
    loweredFrom lowerPiece extra previous ("<x-".toList ++ name ++ (tag ++ rest)) =
      "<x-".toList ++ name ++ (Tag.ofChars tag).lowered lowerPiece ++
        loweredFrom lowerPiece extra (lastOf previous ("<x-".toList ++ name ++ tag)) rest := by
  have written : "<x-".toList ++ name ++ (tag ++ rest) =
      (Segment.component name tag).written ++ rest := (List.append_assoc ..).symm
  rw [written]
  refine loweredFrom_leading lowerPiece (.component name tag) fun c tail joined => ?_
  rw [← written] at joined
  rw [segmentAt_component named ends joined, length, List.take_left]

end

end Untranslated.Blade
