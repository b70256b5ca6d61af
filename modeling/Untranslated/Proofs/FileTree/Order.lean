/-
This file says in which order a walk lists the files below a directory, and proves that the order in
which the file system lists them does not matter.
-/

import Untranslated.Proofs.FileTree.Change
import Untranslated.Proofs.Text.Order

namespace Untranslated.FileTree

/-- The names in each directory are distinct, and none of them stands for another place. -/
inductive WellNamed : Entry → Prop where
  | file (content : Utf8.Bytes) : WellNamed (.file content)
  | link (target : Text) : WellNamed (.link target)
  | directory {entries : List (Text × Entry)} (distinct : (entries.map (·.1)).Nodup)
      (ordinary : ∀ named ∈ entries, named.1 ≠ parent ∧ [named.1] ≠ outside)
      (inside : ∀ named ∈ entries, WellNamed named.2) : WellNamed (.directory entries)

section

variable {tree entry : Entry}

/-- An entry that is found by its name is in the directory. -/
theorem Entry.mem_of_member? {entries : List (Text × Entry)} {name : Text}
    (found : (Entry.directory entries).member? name = some entry) : (name, entry) ∈ entries := by
  obtain ⟨named, first, rfl⟩ := Option.map_eq_some_iff.mp found
  obtain rfl : named.1 = name := by simpa using List.find?_some first
  exact List.mem_of_find?_eq_some first

/-- Where names are distinct, each entry is found by its name. -/
theorem Entry.member?_of_mem {entries : List (Text × Entry)} {name : Text}
    (distinct : (entries.map (·.1)).Nodup) (member : (name, entry) ∈ entries) :
    (Entry.directory entries).member? name = some entry := by
  induction entries with
  | nil => cases member
  | cons first rest inductionHypothesis =>
      obtain ⟨own, inner⟩ := first
      obtain ⟨absent, distinct⟩ := List.nodup_cons.mp distinct
      rw [member?_cons]
      rcases List.mem_cons.mp member with same | later
      · obtain ⟨rfl, rfl⟩ := Prod.mk.inj same
        rw [if_pos rfl]
      · have other : own ≠ name := fun same => absent (List.mem_map.mpr ⟨_, later, same.symm⟩)
        rw [if_neg other, inductionHypothesis distinct later]

/-- What is in a well-named tree is well-named. -/
theorem WellNamed.at? (wellNamed : WellNamed tree) {place : Place}
    (found : tree.at? place = some entry) : WellNamed entry := by
  induction place generalizing tree with
  | nil => exact Option.some.inj found ▸ wellNamed
  | cons name rest inductionHypothesis =>
      rw [Entry.at?_cons] at found
      obtain ⟨inner, member, further⟩ := Option.bind_eq_some_iff.mp found
      cases wellNamed with
      | file content => cases member
      | link target => cases member
      | directory distinct ordinary inside =>
          exact inductionHypothesis (inside _ (Entry.mem_of_member? member)) further

/-- A tree is well-named in any order. -/
theorem Reordered.wellNamed {other : Entry} (same : Reordered tree other)
    (wellNamed : WellNamed tree) : WellNamed other := by
  induction same with
  | refl entry => exact wellNamed
  | @swap before after first second different =>
      cases wellNamed with
      | directory distinct ordinary inside =>
          have order : (before ++ first :: second :: after).Perm
              (before ++ second :: first :: after) :=
            List.Perm.append_left before (List.Perm.swap _ _ after)
          exact .directory ((order.map _).nodup_iff.mp distinct)
            (fun named member => ordinary named (order.mem_iff.mpr member))
            (fun named member => inside named (order.mem_iff.mpr member))
  | inside before after name inner inductionHypothesis =>
      cases wellNamed with
      | directory distinct ordinary inside =>
          simp only [List.forall_mem_append, List.forall_mem_cons] at ordinary inside
          refine .directory (by simpa using distinct) ?_ ?_
          · simpa only [List.forall_mem_append, List.forall_mem_cons] using ordinary
          · simp only [List.forall_mem_append, List.forall_mem_cons]
            exact ⟨inside.1, inductionHypothesis inside.2.1, inside.2.2⟩
  | trans left right first second => exact second (first wellNamed)

end

/-- The files of a directory come in the order of their names, and after them what is below its
directories, again in the order of the names. -/
inductive Earlier : List Text → List Text → Prop where
  | files {first second : Text} (less : Text.le first second = true) (different : first ≠ second) :
      Earlier [first] [second]
  | fileFirst (first second next : Text) (rest : List Text) :
      Earlier [first] (second :: next :: rest)
  | directories {first second : Text} (less : Text.le first second = true)
      (different : first ≠ second) (next other : Text) (rest others : List Text) :
      Earlier (first :: next :: rest) (second :: other :: others)
  | inside (name : Text) {first second : List Text} (earlier : Earlier first second) :
      Earlier (name :: first) (name :: second)

/-- Of two files not both come before the other. -/
theorem Earlier.asymm {first second : List Text} (earlier : Earlier first second) :
    ¬ Earlier second first := by
  induction earlier with
  | files less different =>
      intro later
      cases later with
      | files less' => exact different (Text.le_antisymm _ _ less less')
      | inside name later => cases later
  | fileFirst first second next rest =>
      intro later
      cases later with
      | inside name later => cases later
  | directories less different next other rest others =>
      intro later
      cases later with
      | directories less' => exact different (Text.le_antisymm _ _ less less')
      | inside => exact different rfl
  | inside name earlier inductionHypothesis =>
      intro later
      cases later with
      | files _ different => exact different rfl
      | fileFirst => cases earlier
      | directories _ different => exact different rfl
      | inside _ later => exact inductionHypothesis later

/-- Of two files below a path one comes before the other. -/
def EarlierBelow (root first second : Path) : Prop :=
  ∃ names others, first = root.descend names ∧ second = root.descend others ∧ Earlier names others

/-- Different ways lead to different paths. -/
theorem Path.descend_injective (root : Path) {names others : List Text}
    (same : root.descend names = root.descend others) : names = others :=
  List.append_cancel_left (Path.mk.inj same).2

/-- Of two files below a path not both come before the other. -/
theorem EarlierBelow.asymm {root first second : Path} (earlier : EarlierBelow root first second) :
    ¬ EarlierBelow root second first := by
  obtain ⟨names, others, rfl, rfl, before⟩ := earlier
  rintro ⟨names', others', same, same', after⟩
  rw [← Path.descend_injective root same, ← Path.descend_injective root same'] at after
  exact before.asymm after

/-- The order below a child is the order below its parent. -/
theorem EarlierBelow.inside {root first second : Path} {name : Text}
    (earlier : EarlierBelow (root.child name) first second) : EarlierBelow root first second := by
  obtain ⟨names, others, rfl, rfl, before⟩ := earlier
  exact ⟨_, _, Path.child_descend _ _ _, Path.child_descend _ _ _, before.inside name⟩

/-- The entries of a directory are walked under their own names. -/
theorem walkEntries_names (tree : Entry) (place : Place) (path : Path)
    (entries : List (Text × Entry)) :
    (walkEntries tree place path entries).map (·.1) = entries.map (·.1) := by
  induction entries with
  | nil => rw [walkEntries]; rfl
  | cons first rest inductionHypothesis =>
      obtain ⟨name, entry⟩ := first
      rw [walkEntries, List.map_cons, List.map_cons, inductionHypothesis]

/-- The files below a directory of a group are below one of its names. -/
theorem mem_walkEntries {tree : Entry} {place : Place} {path found : Path}
    {entries : List (Text × Entry)} {group : Text × List Path}
    (member : group ∈ walkEntries tree place path entries) (inside : found ∈ group.2) :
    ∃ next rest, found = path.descend (group.1 :: next :: rest) := by
  induction entries with
  | nil => simp [walkEntries] at member
  | cons first others inductionHypothesis =>
      obtain ⟨name, entry⟩ := first
      rw [walkEntries, List.mem_cons] at member
      rcases member with rfl | later
      · obtain ⟨names, below, rfl⟩ := (mem_walkEntry _ _ _ _ _).mp inside
        obtain ⟨next, rest, rfl⟩ := List.exists_cons_of_ne_nil (fileBelow_names below)
        exact ⟨next, rest, Path.child_descend _ _ _⟩
      · exact inductionHypothesis later

/-- The files of a directory come in the order of their names. -/
theorem sort_pairwise_child (path : Path) {names : List Text} (distinct : names.Nodup) :
    ((Text.sort names).map path.child).Pairwise (EarlierBelow path) := by
  have different : (Text.sort names).Nodup := (Text.sort_perm names).nodup_iff.mpr distinct
  rw [List.pairwise_map]
  exact ((Text.sort_pairwise names).and different).imp fun both =>
    ⟨_, _, rfl, rfl, .files both.1 both.2⟩

/-- The directories in a directory come in the order of their names. -/
theorem walkEntries_pairwise (tree : Entry) (place : Place) (path : Path)
    {entries : List (Text × Entry)} (distinct : (entries.map (·.1)).Nodup) :
    ((walkEntries tree place path entries).mergeSort fun a b => Text.le a.1 b.1).Pairwise
      fun a b => Text.le a.1 b.1 = true ∧ a.1 ≠ b.1 := by
  have sorted : ((walkEntries tree place path entries).mergeSort fun a b =>
      Text.le a.1 b.1).Pairwise fun a b => Text.le a.1 b.1 = true :=
    List.pairwise_mergeSort (fun a b c => Text.le_trans a.1 b.1 c.1)
      (fun a b => Text.le_total a.1 b.1) _
  have different : (((walkEntries tree place path entries).mergeSort fun a b =>
      Text.le a.1 b.1).map (·.1)).Nodup := by
    rw [((List.mergeSort_perm _ _).map _).nodup_iff, walkEntries_names]
    exact distinct
  exact sorted.and (List.pairwise_map.mp different)

/-- A walk lists the files in order. -/
theorem walkEntry_pairwise (tree : Entry) (place : Place) (path : Path) (entry : Entry)
    (wellNamed : WellNamed entry) :
    (walkEntry tree place path entry).Pairwise (EarlierBelow path) := by
  induction place, path, entry using walkEntry.induct tree
    (motive_2 := fun place path entries => (∀ named ∈ entries, WellNamed named.2) →
      ∀ group ∈ walkEntries tree place path entries, group.2.Pairwise (EarlierBelow path)) with
  | case1 place path entries inner =>
      cases wellNamed with
      | directory distinct ordinary inside =>
          have files := sort_pairwise_child path
            (distinct.sublist ((List.filter_sublist (p := countsAsFile tree place)).map _))
          rw [walkEntry, List.pairwise_append, List.pairwise_flatMap]
          refine ⟨files, ⟨fun group member => inner inside group (List.mem_mergeSort.mp member),
            (walkEntries_pairwise tree place path distinct).imp_of_mem ?_⟩, ?_⟩
          · intro group other member memberOther both found within late withinLate
            obtain ⟨less, different⟩ := both
            obtain ⟨next, rest, rfl⟩ := mem_walkEntries (List.mem_mergeSort.mp member) within
            obtain ⟨next', rest', rfl⟩ :=
              mem_walkEntries (List.mem_mergeSort.mp memberOther) withinLate
            exact ⟨_, _, rfl, rfl, .directories less different _ _ _ _⟩
          · intro file direct late below
            obtain ⟨name, -, rfl⟩ := List.mem_map.mp direct
            obtain ⟨group, member, within⟩ := List.mem_flatMap.mp below
            obtain ⟨next, rest, rfl⟩ := mem_walkEntries (List.mem_mergeSort.mp member) within
            exact ⟨_, _, rfl, rfl, .fileFirst name _ _ _⟩
  | case2 entry place path plain =>
      cases entry with
      | directory entries => exact absurd rfl (plain entries)
      | file content => exact .nil
      | link target => exact .nil
  | case3 place path _ group member => simp [walkEntries] at member
  | case4 place path name entry rest first others wellNamed group member =>
      obtain ⟨own, wellNamed⟩ := List.forall_mem_cons.mp wellNamed
      rw [walkEntries, List.mem_cons] at member
      rcases member with rfl | later
      · exact (first own).imp EarlierBelow.inside
      · exact others wellNamed group later

/-- A file is listed alone. Below a directory are listed the files that are there, the files of each
directory before those of the directories in it. -/
structure InWalkOrder (tree : Entry) (root : Path) (files : List Path) : Prop where
  alone : isFile tree root = true → files = [root]
  below : isDirectory tree root = true →
    ∀ found, found ∈ files ↔ ∃ names, Below tree root names ∧ found = root.descend names
  ordered : files.Pairwise (EarlierBelow root)

section

variable {tree : Entry} {root : Path}

/-- Only directories and files are walked. -/
theorem walk_file (other : isDirectory tree root = false) :
    walk tree root = if isFile tree root then [root] else [] := by
  unfold isDirectory lookup? at other
  unfold walk isFile lookup?
  cases located : locate tree root with
  | error obstacle => rfl
  | ok place =>
      simp only [located] at other ⊢
      split
      · rename_i present
        simp [present, Entry.isFile]
      · rename_i entry noFile present
        rw [present] at other
        cases entry with
        | file content => exact absurd rfl (noFile content)
        | link target => simp [present, Entry.isFile, walkEntry]
        | directory entries => cases other
      · rename_i absent
        simp [absent]

/-- A file is no directory. -/
theorem isDirectory_of_isFile (file : isFile tree root = true) : isDirectory tree root = false := by
  unfold isFile at file
  unfold isDirectory
  cases found : lookup? tree root with
  | none => rfl
  | some entry =>
      rw [found] at file
      cases entry with
      | file content => rfl
      | link target => cases file
      | directory entries => cases file

/-- A walk lists what is below its root in walking order. -/
theorem walk_inOrder (wellNamed : WellNamed tree) (root : Path) :
    InWalkOrder tree root (walk tree root) where
  alone file := by rw [walk_file (isDirectory_of_isFile file), if_pos file]
  below directory _ := mem_walk directory
  ordered := by
    unfold walk
    split
    · exact .nil
    · split
      · exact List.pairwise_singleton _ _
      · rename_i present
        exact walkEntry_pairwise _ _ _ _ (wellNamed.at? present)
      · exact .nil

/-- Files below a directory are listed in one order only. -/
theorem InWalkOrder.unique {other : Entry} {files others : List Path}
    (listed : InWalkOrder tree root files) (listedOther : InWalkOrder other root others)
    (same : ∀ found, found ∈ files ↔ found ∈ others) : files = others := by
  have nodup {files : List Path} (ordered : files.Pairwise (EarlierBelow root)) : files.Nodup :=
    ordered.imp (by rintro found _ earlier rfl; exact earlier.asymm earlier)
  have perm := (List.perm_ext_iff_of_nodup (nodup listed.ordered) (nodup listedOther.ordered)).mpr
    same
  exact perm.eq_of_pairwise (fun _ _ _ _ earlier later => absurd later earlier.asymm)
    listed.ordered listedOther.ordered

/-- The order in which directories list their entries does not matter. -/
theorem Reordered.walk {other : Entry} (same : Reordered tree other) (wellNamed : WellNamed tree)
    (root : Path) : walk tree root = walk other root := by
  cases directory : FileTree.isDirectory tree root with
  | false =>
      rw [walk_file directory, walk_file (same.isDirectory root ▸ directory), same.isFile]
  | true =>
      refine (walk_inOrder wellNamed root).unique (walk_inOrder (same.wellNamed wellNamed) root) ?_
      intro found
      rw [mem_walk directory, mem_walk (same.isDirectory root ▸ directory)]
      exact exists_congr fun names => and_congr_left' same.below_iff

end

end Untranslated.FileTree
