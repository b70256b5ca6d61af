/-
This file proves that a listing of sources holds each file once, at its first occurrence below the
roots.
-/

import Mathlib
import Untranslated.Proofs.FileTree.Order
import Untranslated.Proofs.FileTree.Resolution

namespace Untranslated.FileTree

section

variable {A B : Type} [DecidableEq B] {key : A → B}

/-- Of the values with one key the first is kept. -/
def firstFor (key : A → B) : List A → List A
  | [] => []
  | a :: rest => a :: (firstFor key rest).filter (key · ≠ key a)

/-- The values that are kept are in their order. -/
theorem firstFor_sublist (values : List A) : (firstFor key values).Sublist values := by
  induction values with
  | nil => exact .slnil
  | cons a rest inductionHypothesis =>
      exact .cons_cons a (List.filter_sublist.trans inductionHypothesis)

/-- The values that are kept have different keys. -/
theorem firstFor_pairwise (values : List A) :
    (firstFor key values).Pairwise fun a b => key a ≠ key b := by
  induction values with
  | nil => exact .nil
  | cons a rest inductionHypothesis =>
      refine List.pairwise_cons.mpr ⟨fun b member => ?_, inductionHypothesis.filter _⟩
      exact fun same => of_decide_eq_true (List.mem_filter.mp member).2 same.symm

/-- For each value one with its key is kept. -/
theorem firstFor_represents {values : List A} {a : A} (member : a ∈ values) :
    ∃ kept ∈ firstFor key values, key kept = key a := by
  induction values with
  | nil => cases member
  | cons first rest inductionHypothesis =>
      by_cases same : key first = key a
      · exact ⟨first, List.mem_cons_self, same⟩
      · have later : a ∈ rest := (List.mem_cons.mp member).resolve_left fun is => same (is ▸ rfl)
        obtain ⟨kept, inside, equal⟩ := inductionHypothesis later
        refine ⟨kept, List.mem_cons_of_mem _ (List.mem_filter.mpr ⟨inside, ?_⟩), equal⟩
        simpa [equal] using fun is => same is.symm

/-- The values of the second part count only if the first part has none with their key. -/
theorem firstFor_append (first second : List A) :
    firstFor key (first ++ second) =
      firstFor key first ++ (firstFor key second).filter (key · ∉ first.map key) := by
  induction first with
  | nil => exact (List.filter_eq_self.mpr fun _ _ => by simp).symm
  | cons a rest inductionHypothesis =>
      rw [List.cons_append, firstFor, firstFor, inductionHypothesis, List.filter_append,
        List.filter_filter, List.cons_append]
      simp only [List.map_cons, List.mem_cons, not_or, Bool.decide_and]

/-- What is in the first part already adds nothing. -/
theorem firstFor_append_subset {first second : List A} (subset : second ⊆ first) :
    firstFor key (first ++ second) = firstFor key first := by
  rw [firstFor_append, List.filter_eq_nil_iff.mpr, List.append_nil]
  intro a member
  simpa using ⟨a, subset ((firstFor_sublist second).mem member), rfl⟩

/-- A further value is kept if its key is new. -/
theorem firstFor_append_singleton (values : List A) (a : A) :
    firstFor key (values ++ [a]) =
      if key a ∈ (firstFor key values).map key then firstFor key values
      else firstFor key values ++ [a] := by
  have present : key a ∈ (firstFor key values).map key ↔ key a ∈ values.map key := by
    simp only [List.mem_map]
    constructor
    · rintro ⟨b, kept, same⟩
      exact ⟨b, (firstFor_sublist values).mem kept, same⟩
    · rintro ⟨b, member, same⟩
      exact same ▸ firstFor_represents member
  rw [firstFor_append]
  by_cases known : key a ∈ values.map key
  · rw [if_pos (present.mpr known), firstFor, firstFor, List.filter_nil,
      List.filter_cons_of_neg (by simpa using known), List.filter_nil, List.append_nil]
  · rw [if_neg (mt present.mp known), firstFor, firstFor, List.filter_nil,
      List.filter_cons_of_pos (by simpa using known), List.filter_nil]

end

/-- The place that a path leads to, when every link on the way is replaced by its target. -/
def LeadsTo (tree : Entry) (path : Path) (place : Place) : Prop :=
  ∃ count, Leads tree count (placeFor [] path) path.parts place

section

variable {tree : Entry} {path : Path} {place : Place}

/-- Where a path leads, there is its canonical place. -/
theorem LeadsTo.canonical (leads : LeadsTo tree path place) : canonical tree path = place := by
  rw [FileTree.canonical, canonicalFrom_eq_ok.mpr leads]

/-- Without loops every path leads to its canonical place. -/
theorem LoopFree.leadsTo (loopFree : LoopFree tree) (path : Path) :
    LeadsTo tree path (canonical tree path) := by
  obtain ⟨count, place, leads⟩ := loopFree.leads (placeFor [] path) path.parts
  have leadsTo : LeadsTo tree path place := ⟨count, leads⟩
  rwa [leadsTo.canonical]

/-- Without loops every path is resolved. -/
theorem LoopFree.resolve (loopFree : LoopFree tree) (path : Path) :
    resolve tree path = .ok (canonical tree path) := by
  rw [FileTree.resolve, canonicalFrom_eq_ok.mpr (loopFree.leadsTo path)]

/-- Links go in no circle, whatever the order is. -/
theorem Reordered.loopFree {other : Entry} (same : Reordered tree other)
    (loopFree : LoopFree tree) : LoopFree other := by
  rw [loopFree_iff] at loopFree ⊢
  intro here name target is
  obtain ⟨count, place, here', name', target', split, is', inside⟩ :=
    loopFree here name target (same.shapeAt _ ▸ is)
  exact ⟨count, place, here', name', target', split, same.shapeAt _ ▸ is',
    inside.congr same.shapeAt⟩

/-- A path has one canonical place, whatever the order is. -/
theorem Reordered.canonical {other : Entry} (same : Reordered tree other)
    (loopFree : LoopFree tree) (path : Path) : canonical other path = canonical tree path := by
  obtain ⟨count, leads⟩ := loopFree.leadsTo path
  have leadsOther : LeadsTo other path _ := ⟨count, leads.congr same.shapeAt⟩
  exact leadsOther.canonical

/-- A path is present just when it leads somewhere. -/
theorem isPresent_iff : isPresent tree path = true ↔ ∃ place, locate tree path = .ok place := by
  rw [isPresent, lookup?]
  cases located : locate tree path with
  | error obstacle => simp
  | ok place => simpa [Entry.shapeAt] using follow_present located

/-- A path is present in both trees or in neither. -/
theorem Reordered.isPresent {other : Entry} (same : Reordered tree other) (path : Path) :
    isPresent tree path = isPresent other path := by
  rw [Bool.eq_iff_iff, isPresent_iff, isPresent_iff, same.locate]

end

/-- The files below the roots that exist whose names have one of the suffixes, root by root. -/
def found (tree : Entry) (suffixes : List Text) (roots : List Path) : List Path :=
  ((roots.filter (isPresent tree)).flatMap (walk tree)).filter (·.hasSuffix suffixes)

/-- The listing of so many files, when some roots are missing. -/
def Listing.of (tree : Entry) (files missing : List Path) : Listing :=
  ⟨firstFor (canonical tree) files, (firstFor (canonical tree) files).map (canonical tree), missing,
    none⟩

section

variable {tree : Entry} {suffixes : List Text}

theorem found_append (roots more : List Path) :
    found tree suffixes (roots ++ more) = found tree suffixes roots ++ found tree suffixes more := by
  simp [found]

/-- Fewer roots have no other files. -/
theorem found_subset {roots more : List Path} (subset : more ⊆ roots) :
    found tree suffixes more ⊆ found tree suffixes roots := by
  intro path member
  simp only [found, List.mem_filter, List.mem_flatMap] at member ⊢
  obtain ⟨⟨root, ⟨inside, present⟩, walked⟩, suffix⟩ := member
  exact ⟨⟨root, ⟨subset inside, present⟩, walked⟩, suffix⟩

/-- A path is added behind the files of a listing. -/
theorem Listing.add_of (loopFree : LoopFree tree) (files missing : List Path) (path : Path) :
    (Listing.of tree files missing).add tree path = .of tree (files ++ [path]) missing := by
  simp only [add, of, Option.isSome_none, Bool.false_eq_true, if_false, loopFree.resolve,
    List.contains_iff_mem, firstFor_append_singleton]
  split
  · rfl
  · rw [List.map_append]
    rfl

/-- Paths are added behind the files of a listing in their order. -/
theorem Listing.foldl_add_of (loopFree : LoopFree tree) (files missing paths : List Path) :
    paths.foldl (Listing.add tree) (.of tree files missing) = .of tree (files ++ paths) missing := by
  induction paths generalizing files with
  | nil => rw [List.append_nil]; rfl
  | cons path rest inductionHypothesis =>
      rw [List.foldl_cons, add_of loopFree, inductionHypothesis, List.append_assoc]
      rfl

/-- A root adds the files below it, or it is missing. -/
theorem Listing.addRoot_of (loopFree : LoopFree tree) (files missing : List Path) (root : Path) :
    (Listing.of tree files missing).addRoot tree suffixes root =
      .of tree (files ++ found tree suffixes [root])
        (missing ++ [root].filter (!isPresent tree ·)) := by
  rw [addRoot, if_neg (by simp [of])]
  by_cases present : isPresent tree root = true
  · rw [if_pos present, foldl_add_of loopFree]
    simp [found, present]
  · rw [if_neg present]
    simp [found, present, of]

/-- Without links in a circle the files that are found are listed, and nothing ends the listing. -/
theorem list_eq (loopFree : LoopFree tree) (roots : List Path) : list tree roots suffixes =
    .of tree (found tree suffixes roots) (roots.filter (!isPresent tree ·)) := by
  have from' (before : List Path) :
      roots.foldl (Listing.addRoot tree suffixes)
          (.of tree (found tree suffixes before) (before.filter (!isPresent tree ·))) =
        .of tree (found tree suffixes (before ++ roots))
          ((before ++ roots).filter (!isPresent tree ·)) := by
    induction roots generalizing before with
    | nil => rw [List.append_nil]; rfl
    | cons root rest inductionHypothesis =>
        rw [List.foldl_cons, Listing.addRoot_of loopFree, ← found_append, ← List.filter_append,
          inductionHypothesis, List.append_assoc]
        rfl
  exact from' []

end

/-- Of the files that are found the first at each place is listed. -/
structure ListsOnce (tree : Entry) (suffixes : List Text) (roots files : List Path) : Prop where
  first : files = firstFor (canonical tree) (found tree suffixes roots)
  once : files.Pairwise fun file other =>
    ∀ place, LeadsTo tree file place → ¬ LeadsTo tree other place
  represented : ∀ file ∈ found tree suffixes roots,
    ∃ listed ∈ files, ∃ place, LeadsTo tree listed place ∧ LeadsTo tree file place

/-- For every tree without links in a circle the listing holds each file below the roots once, at
its first occurrence: the walks of the roots are in the order of names, a path stands for the place
that it leads to, more roots only add files at the end, a root that is repeated adds none, and the
order in which directories list their entries does not matter. -/
theorem list_firstOccurrences {tree : Entry} (loopFree : LoopFree tree) (wellNamed : WellNamed tree)
    (roots : List Path) (suffixes : List Text) :
    (list tree roots suffixes).circular = none ∧
      ListsOnce tree suffixes roots (list tree roots suffixes).paths ∧
      (∀ root, InWalkOrder tree root (walk tree root)) ∧
      (∀ path, LeadsTo tree path (canonical tree path)) ∧
      (∀ more, (list tree roots suffixes).paths <+: (list tree (roots ++ more) suffixes).paths) ∧
      (∀ again rest, again ⊆ roots →
        (list tree (roots ++ again ++ rest) suffixes).paths =
          (list tree (roots ++ rest) suffixes).paths) ∧
      ∀ other, Reordered tree other → list other roots suffixes = list tree roots suffixes := by
  have paths (roots : List Path) : (list tree roots suffixes).paths =
      firstFor (canonical tree) (found tree suffixes roots) := by rw [list_eq loopFree]; rfl
  refine ⟨by rw [list_eq loopFree]; rfl, ⟨paths roots, ?_, ?_⟩, walk_inOrder wellNamed,
    loopFree.leadsTo, ?_, ?_, ?_⟩
  · rw [paths]
    refine (firstFor_pairwise _).imp fun different place leads leadsOther => different ?_
    rw [leads.canonical, leadsOther.canonical]
  · intro file member
    obtain ⟨listed, kept, same⟩ :
        ∃ listed ∈ firstFor (canonical tree) _, canonical tree listed = canonical tree file :=
      firstFor_represents member
    exact ⟨listed, paths roots ▸ kept, _, loopFree.leadsTo listed, same ▸ loopFree.leadsTo file⟩
  · intro more
    rw [paths, paths, found_append, firstFor_append]
    exact List.prefix_append _ _
  · intro again rest subset
    have within : found tree suffixes again ⊆ found tree suffixes roots := found_subset subset
    rw [paths, paths, found_append, found_append, found_append, firstFor_append,
      firstFor_append_subset within, firstFor_append]
    refine congrArg _ (List.filter_congr fun file _ => ?_)
    simp only [List.map_append, List.mem_append, decide_eq_decide]
    exact not_congr (or_iff_left_of_imp fun member => List.map_subset _ within member)
  · intro other same
    have present : isPresent other = isPresent tree := (funext same.isPresent).symm
    have walked : walk other = walk tree := (funext (same.walk wellNamed)).symm
    have resolved : canonical other = canonical tree := funext (same.canonical loopFree)
    rw [list_eq loopFree, list_eq (same.loopFree loopFree), found, found, Listing.of, Listing.of,
      present, walked, resolved]

/-- A tree with a link to a file, a link to a directory and a link to nothing. -/
def linkedTree : Entry :=
  .directory
    [("b", .directory
      [("z.php", .file []), ("a.txt", .file []), ("c.php", .link "../shared/x.php")]),
     ("a", .directory [("inner", .link "../b"), ("k.php", .link "gone.php")]),
     ("shared", .directory [("x.php", .file [])])]

/-- The names in the tree are distinct and ordinary. -/
theorem wellNamed_linkedTree : WellNamed linkedTree := by
  refine .directory (by decide) (by decide) ?_
  refine List.forall_mem_cons.mpr ⟨.directory (by decide) (by decide) ?_, List.forall_mem_cons.mpr
    ⟨.directory (by decide) (by decide) ?_, List.forall_mem_singleton.mpr
      (.directory (by decide) (by decide) ?_)⟩⟩
  all_goals simp [WellNamed.file, WellNamed.link]

/-- The shared file is listed where it is found first, under the name of the link to it. -/
theorem list_firstOccurrences_overlapping :
    ListsOnce linkedTree ["php"] [⟨[], ["b"]⟩, ⟨[], ["a"]⟩, ⟨[], ["shared"]⟩, ⟨[], ["b", "z.php"]⟩]
      [⟨[], ["b", "c.php"]⟩, ⟨[], ["b", "z.php"]⟩, ⟨[], ["a", "k.php"]⟩] := by
  have loopFree : LoopFree linkedTree := by decide +kernel
  have paths : (list linkedTree [⟨[], ["b"]⟩, ⟨[], ["a"]⟩, ⟨[], ["shared"]⟩, ⟨[], ["b", "z.php"]⟩]
      ["php"]).paths = [⟨[], ["b", "c.php"]⟩, ⟨[], ["b", "z.php"]⟩, ⟨[], ["a", "k.php"]⟩] := by
    cbv
  obtain ⟨-, once, -⟩ := list_firstOccurrences loopFree wellNamed_linkedTree
    [⟨[], ["b"]⟩, ⟨[], ["a"]⟩, ⟨[], ["shared"]⟩, ⟨[], ["b", "z.php"]⟩] ["php"]
  exact paths ▸ once

end Untranslated.FileTree
