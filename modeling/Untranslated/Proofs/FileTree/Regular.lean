/-
This file proves that the listed paths lead to regular files, or are links that lead to nothing that
can be opened.
-/

import Untranslated.Proofs.FileTree.Sources
import Untranslated.Proofs.Results
import Untranslated.Scan.FileScan

namespace Untranslated.FileTree

section

variable {tree : Entry} {here place last : Place} {parts names : List Text} {links : Nat}

/-- What is found over some links is found over more. -/
theorem follow_mono (found : follow tree links here parts = .ok place) {more : Nat}
    (le : links ≤ more) : follow tree more here parts = .ok place := by
  induction links generalizing here parts more with
  | zero => cases found
  | succ links inductionHypothesis =>
      obtain ⟨more, rfl⟩ := Nat.exists_eq_add_of_le' le
      rw [← Nat.add_assoc, follow]
      rw [follow] at found
      induction parts generalizing here with
      | nil => rwa [followParts_nil] at found ⊢
      | cons name rest inner =>
          rw [followParts_cons] at found ⊢
          split at found
          · cases found
          · split at found
            · rename_i up
              rw [if_pos up]
              exact inner found
            · rename_i down
              rw [if_neg down]
              split at found
              · exact inductionHypothesis found (Nat.le_add_left links more)
              · exact inner found
          · cases found

/-- From where the front of a path leads the rest is followed over the links that are left. -/
theorem follow_rest (front : follow tree links here parts = .ok place)
    (whole : follow tree links here (parts ++ names) = .ok last) :
    ∃ fewer, fewer ≤ links ∧ follow tree fewer place names = .ok last := by
  induction links generalizing here parts with
  | zero => cases front
  | succ links inductionHypothesis =>
      rw [follow] at front whole
      induction parts generalizing here with
      | nil =>
          rw [followParts_nil] at front
          split at front
          · obtain rfl := Except.ok.inj front
            exact ⟨links + 1, Nat.le_refl _, whole⟩
          · cases front
      | cons name rest inner =>
          rw [followParts_cons] at front
          rw [List.cons_append, followParts_cons] at whole
          split at front
          · cases front
          · rename_i is
            rw [is] at whole
            split at front
            · rename_i up
              simp only [up, if_true] at whole
              exact inner front whole
            · rename_i down
              simp only [down, if_false] at whole
              split at front
              · rename_i target link
                simp only [link, ← List.append_assoc] at whole
                obtain ⟨fewer, le, further⟩ := inductionHypothesis front whole
                exact ⟨fewer, Nat.le_succ_of_le le, further⟩
              · split at whole
                · rename_i noLink _ target link
                  exact absurd link (noLink target)
                · exact inner front whole
          · cases front

/-- Directories on the way down are passed. -/
theorem followParts_inside (followLink : Place → List Text → Except Obstacle Place)
    (present : tree.shapeAt (place ++ names) = some .directory)
    (ordinary : ∀ name ∈ names, name ≠ parent) (rest : List Text) :
    followParts tree followLink place (names ++ rest) =
      followParts tree followLink (place ++ names) rest := by
  induction names generalizing place with
  | nil => rw [List.append_nil, List.nil_append]
  | cons name others inductionHypothesis =>
      have down : place ++ name :: others = (place ++ [name]) ++ others := by simp
      have inside : tree.shapeAt (place ++ [name]) = some .directory := by
        cases others with
        | nil => exact present
        | cons next others => exact Entry.shapeAt_prefix (by rw [← down, present]; rfl)
      obtain ⟨own, ordinary⟩ := List.forall_mem_cons.mp ordinary
      rw [List.cons_append, followParts_cons, Entry.shapeAt_prefix (by rw [present]; rfl)]
      simp only [own, if_false, inside]
      rw [down]
      exact inductionHypothesis (by rw [← down, present]) ordinary

/-- The names in a tree are ordinary ones. -/
theorem WellNamed.ordinary (wellNamed : WellNamed tree) (place : Place) {name : Text}
    (present : (tree.shapeAt (place ++ [name])).isSome = true) :
    name ≠ parent ∧ [name] ≠ outside := by
  rw [Entry.shapeAt, Entry.at?_append_singleton, Option.isSome_map] at present
  obtain ⟨entry, found⟩ := Option.isSome_iff_exists.mp present
  obtain ⟨above, inside, member⟩ := Option.bind_eq_some_iff.mp found
  cases wellNamed.at? inside with
  | file content => cases member
  | link target => cases member
  | directory distinct ordinary _ => exact ordinary _ (Entry.mem_of_member? member)

/-- From a place that is no link no path leads to a link. -/
theorem follow_noLink (wellNamed : WellNamed tree)
    (noLink : ∀ target, tree.shapeAt here ≠ some (.link target))
    (found : follow tree links here parts = .ok place) :
    ∀ target, tree.shapeAt place ≠ some (.link target) := by
  have absent : tree.shapeAt outside = none := by
    by_contra some
    exact (wellNamed.ordinary [] (Option.isSome_iff_ne_none.mpr some)).2 rfl
  induction links generalizing here parts with
  | zero => cases found
  | succ links inductionHypothesis =>
      rw [follow] at found
      induction parts generalizing here with
      | nil =>
          rw [followParts_nil] at found
          split at found
          · exact Except.ok.inj found ▸ noLink
          · cases found
      | cons name rest inner =>
          rw [followParts_cons] at found
          split at found
          · cases found
          · rename_i is
            split at found
            · refine inner (fun target link => ?_) found
              rw [above] at link
              split at link
              · simp [absent] at link
              · split at link
                · exact (wellNamed.ordinary _ (by rw [link]; rfl)).1 rfl
                · rename_i some
                  obtain ⟨front, last, rfl⟩ := (List.eq_nil_or_concat' here).resolve_left
                    fun none => by simp [none] at some
                  rw [List.dropLast_concat, Entry.shapeAt_prefix (by rw [is]; rfl)] at link
                  cases link
            · split at found
              · refine inductionHypothesis (fun target link => ?_) found
                rw [placeFor] at link
                split at link
                · simp [absent] at link
                · exact noLink target link
              · rename_i plain
                exact inner plain found
          · cases found

end

/-- A link below a path that leads to nothing that can be opened. -/
def BrokenLink (tree : Entry) (path : Path) : Prop :=
  ∃ root names place target cause, path = root.descend names ∧ names ≠ [] ∧
    locate tree root = .ok place ∧ tree.shapeAt (place ++ names) = some (.link target) ∧
    locate tree path = .error cause

section

variable {tree : Entry} {root path : Path} {place : Place} {names : List Text}

/-- What counts as a file is a file, or a link that leads to no directory. -/
theorem fileBelow_end (wellNamed : WellNamed tree) {entry : Entry}
    (found : tree.at? place = some entry) (below : FileBelow tree place entry names) :
    (∀ name ∈ names, name ≠ parent) ∧
      ((∃ content, tree.shapeAt (place ++ names) = some (.file content)) ∨
        ∃ front name target, names = front ++ [name] ∧
          tree.shapeAt (place ++ names) = some (.link target) ∧
          ¬ LeadsToDirectory tree (place ++ front) name) := by
  have inside {place : Place} {entries : List (Text × Entry)} {name : Text} {inner : Entry}
      (found : tree.at? place = some (.directory entries)) (member : (name, inner) ∈ entries) :
      tree.at? (place ++ [name]) = some inner ∧ name ≠ parent := by
    cases wellNamed.at? found with
    | directory distinct ordinary _ =>
        rw [Entry.at?_append_singleton, found]
        exact ⟨Entry.member?_of_mem distinct member, (ordinary _ member).1⟩
  induction below with
  | @file place entries name content member =>
      obtain ⟨own, ordinary⟩ := inside found member
      refine ⟨by simpa using ordinary, .inl ⟨content, ?_⟩⟩
      rw [Entry.shapeAt, own]
      rfl
  | @link place entries name target member other =>
      obtain ⟨own, ordinary⟩ := inside found member
      refine ⟨by simpa using ordinary, .inr ⟨[], name, target, rfl, ?_, by simpa using other⟩⟩
      rw [Entry.shapeAt, own]
      rfl
  | @inside place entries name inner names member below inductionHypothesis =>
      obtain ⟨own, ordinary⟩ := inside found member
      obtain ⟨others, ends⟩ := inductionHypothesis own
      refine ⟨List.forall_mem_cons.mpr ⟨ordinary, others⟩, ?_⟩
      have down : place ++ name :: names = place ++ [name] ++ names := by simp
      rw [down]
      refine ends.imp_right ?_
      rintro ⟨front, last, target, rfl, link, other⟩
      exact ⟨name :: front, last, target, rfl, link, by simpa using other⟩

/-- What is below a directory is a regular file, or a broken link. -/
theorem isFile_or_broken (wellNamed : WellNamed tree) (below : Below tree root names) :
    isFile tree (root.descend names) = true ∨ BrokenLink tree (root.descend names) := by
  obtain ⟨place, entry, located, found, below⟩ := below
  obtain ⟨ordinary, ⟨content, file⟩ | ⟨front, name, target, rfl, link, other⟩⟩ :=
    fileBelow_end wellNamed found below
  · exact .inl (isFile_iff.mpr ⟨_, content, locate_descend located file ordinary, file⟩)
  · cases whole : locate tree (root.descend (front ++ [name])) with
    | error cause =>
        exact .inr ⟨root, _, place, target, cause, rfl, by simp, located, link, whole⟩
    | ok last =>
        obtain ⟨fewer, le, rest⟩ := follow_rest located whole
        rw [← List.append_assoc] at link
        have above : tree.shapeAt (place ++ front) = some .directory :=
          Entry.shapeAt_prefix (by rw [link]; rfl)
        have fromAbove : follow tree (linkLimit + 1) (place ++ front) [name] = .ok last := by
          refine follow_mono ?_ le
          cases fewer with
          | zero => cases rest
          | succ fewer =>
              rw [follow] at rest ⊢
              rwa [followParts_inside _ above fun part member =>
                ordinary part (List.mem_append_left _ member)] at rest
        have noLink := follow_noLink wellNamed (by simp [above]) fromAbove
        obtain ⟨shape, is⟩ := Option.isSome_iff_exists.mp (follow_present fromAbove)
        cases shape with
        | file content => exact .inl (isFile_iff.mpr ⟨last, content, whole, is⟩)
        | link inner => exact absurd is (noLink inner)
        | directory => exact absurd (leadsToDirectory_shape.mpr ⟨last, fromAbove, is⟩) other

/-- A path that is walked leads to a file, or it is a broken link. -/
theorem isFile_or_broken_of_walk (wellNamed : WellNamed tree) (walked : path ∈ walk tree root) :
    isFile tree path = true ∨ BrokenLink tree path := by
  cases directory : isDirectory tree root with
  | true =>
      obtain ⟨names, below, rfl⟩ := (mem_walk directory).mp walked
      exact isFile_or_broken wellNamed below
  | false =>
      rw [walk_file directory] at walked
      split at walked
      · rename_i file
        exact .inl (List.mem_singleton.mp walked ▸ file)
      · cases walked

end

section

variable {tree : Entry} {path : Path} {encoding : Encoding}

/-- A text meets the obstacles of its bytes. -/
theorem readText_obstacle {cause : Obstacle} {other : Path} :
    readText tree encoding path = .error (.obstacle cause other) ↔
      readBytes tree path = .error (.obstacle cause other) := by
  rw [readText, bind_eq_error, or_iff_left]
  rintro ⟨bytes, -, failed⟩
  split at failed <;> cases failed

/-- A broken link cannot be read. -/
theorem BrokenLink.readText (broken : BrokenLink tree path) (encoding : Encoding) :
    ∃ cause, readText tree encoding path = .error (.obstacle cause path) := by
  obtain ⟨root, names, place, target, cause, -, -, -, -, located⟩ := broken
  exact ⟨cause, readText_obstacle.mpr (by rw [readBytes, located])⟩

/-- A regular file can be opened. -/
theorem readText_of_isFile (file : isFile tree path = true) (cause : Obstacle) (other : Path) :
    readText tree encoding path ≠ .error (.obstacle cause other) := by
  obtain ⟨place, content, located, is⟩ := isFile_iff.mp file
  rw [ne_eq, readText_obstacle, readBytes_eq_ok.mpr ⟨place, located, is⟩]
  exact nofun

/-- A reading of many files fails at one of them. -/
theorem readAll_error {paths : List Path} {e : ReadError}
    (failed : readAll tree encoding paths = .error e) :
    ∃ path ∈ paths, readText tree encoding path = .error e := by
  obtain ⟨before, path, after, rfl, -, failed⟩ := mapM_eq_error.mp failed
  refine ⟨path, by simp, (bind_eq_error.mp failed).resolve_right ?_⟩
  rintro ⟨text, -, done⟩
  cases done

/-- In a reading of many files each of them is read. -/
theorem readAll_ok {paths : List Path} {texts : List (Path × List Char)}
    (read : readAll tree encoding paths = .ok texts) {path : Path} (member : path ∈ paths) :
    ∃ text, readText tree encoding path = .ok text := by
  obtain ⟨result, done⟩ := mapM_eq_ok.mp ⟨texts, read⟩ path member
  obtain ⟨text, own, -⟩ := bind_eq_ok.mp done
  exact ⟨text, own⟩

/-- A source on disk is unreadable just when its text is. -/
theorem scanSource_unreadable {targets : Call.Targets} {directives : List Text} {e : ReadError} :
    Scan.scanSource tree targets directives (.onDisk path) = .error (.unreadable path e) ↔
      readText tree .utf8 path = .error e := by
  rw [Scan.scanSource, Scan.readSource]
  cases readText tree .utf8 path with
  | error own => simp [bind, Except.bind]
  | ok text =>
      simp only [bind, Except.bind, reduceCtorEq, iff_false, Scan.scanFile, Scan.parseFile]
      cases Php.parse (Scan.loweredText directives ⟨path, text, .ofName path.text⟩)
          (some path.text) with
      | error own => exact nofun
      | ok program =>
          simp only [Except.mapError]
          split <;> exact nofun

end

section

variable {tree : Entry} {suffixes : List Text} {path : Path}

/-- A path of a longer listing was listed, or it is the new one. -/
theorem Listing.mem_add {listing : Listing} {new : Path}
    (member : path ∈ (listing.add tree new).paths) : path ∈ listing.paths ∨ path = new := by
  rw [add] at member
  split at member
  · exact .inl member
  · split at member
    · exact .inl member
    · split at member
      · exact .inl member
      · simpa using member

/-- A path of a listing was listed, or it is one of those that were added. -/
theorem Listing.mem_foldl_add {listing : Listing} {paths : List Path}
    (member : path ∈ (paths.foldl (Listing.add tree) listing).paths) :
    path ∈ listing.paths ∨ path ∈ paths := by
  induction paths generalizing listing with
  | nil => exact .inl member
  | cons first rest inductionHypothesis =>
      rcases inductionHypothesis member with earlier | later
      · exact (mem_add earlier).imp_right (by rintro rfl; exact List.mem_cons_self)
      · exact .inr (List.mem_cons_of_mem _ later)

/-- A path of a listing was listed, or it is walked below the new root. -/
theorem Listing.mem_addRoot {listing : Listing} {root : Path}
    (member : path ∈ (listing.addRoot tree suffixes root).paths) :
    path ∈ listing.paths ∨ path ∈ walk tree root := by
  rw [addRoot] at member
  split at member
  · exact .inl member
  · split at member
    · exact (mem_foldl_add member).imp_right fun kept => (List.mem_filter.mp kept).1
    · exact .inl member

/-- A path of a listing was listed, or it is walked below one of the roots. -/
theorem Listing.mem_foldl_addRoot {listing : Listing} {roots : List Path}
    (member : path ∈ (roots.foldl (Listing.addRoot tree suffixes) listing).paths) :
    path ∈ listing.paths ∨ ∃ root ∈ roots, path ∈ walk tree root := by
  induction roots generalizing listing with
  | nil => exact .inl member
  | cons root rest inductionHypothesis =>
      rcases inductionHypothesis member with earlier | ⟨other, inside, walked⟩
      · exact (mem_addRoot earlier).imp_right fun walked => ⟨root, List.mem_cons_self, walked⟩
      · exact .inr ⟨other, List.mem_cons_of_mem _ inside, walked⟩

/-- What is listed is found on the walk of a root. -/
theorem mem_list {roots : List Path} (member : path ∈ (list tree roots suffixes).paths) :
    ∃ root ∈ roots, path ∈ walk tree root :=
  (Listing.mem_foldl_addRoot member).resolve_left List.not_mem_nil

end

/-- Each path that is listed leads to a regular file, or is a link that cannot be opened. No file is
missing when the listed paths are read, or scanned, but such a link. -/
theorem list_regularOrBroken {tree : Entry} (wellNamed : WellNamed tree) (roots : List Path)
    (suffixes : List Text) :
    (∀ path ∈ (list tree roots suffixes).paths, isFile tree path = true ∨ BrokenLink tree path) ∧
      (∀ encoding texts, readAll tree encoding (list tree roots suffixes).paths = .ok texts →
        ∀ path ∈ (list tree roots suffixes).paths, isFile tree path = true) ∧
      (∀ encoding cause path,
        readAll tree encoding (list tree roots suffixes).paths = .error (.obstacle cause path) →
          path ∈ (list tree roots suffixes).paths ∧ BrokenLink tree path) ∧
      ∀ targets directives, ∀ path ∈ (list tree roots suffixes).paths,
        (∃ cause, Scan.scanSource tree targets directives (.onDisk path) =
            .error (.unreadable path (.obstacle cause path))) ↔ BrokenLink tree path := by
  have listed (path : Path) (member : path ∈ (list tree roots suffixes).paths) :
      isFile tree path = true ∨ BrokenLink tree path := by
    obtain ⟨root, -, walked⟩ := mem_list member
    exact isFile_or_broken_of_walk wellNamed walked
  refine ⟨listed, ?_, ?_, ?_⟩
  · intro encoding texts read path member
    obtain ⟨text, own⟩ := readAll_ok read member
    exact isFile_of_readText own
  · intro encoding cause path failed
    obtain ⟨own, member, unread⟩ := readAll_error failed
    have broken := (listed own member).resolve_left fun file =>
      readText_of_isFile file cause path unread
    obtain ⟨_, again⟩ := broken.readText encoding
    obtain ⟨-, rfl⟩ := ReadError.obstacle.inj (Except.error.inj (unread.symm.trans again))
    exact ⟨member, broken⟩
  · intro targets directives path member
    simp only [scanSource_unreadable]
    constructor
    · rintro ⟨cause, unread⟩
      exact (listed path member).resolve_left fun file => readText_of_isFile file cause path unread
    · exact fun broken => broken.readText _

/-- An editor has left a link to a lock that is gone beside a file. -/
def lockedTree : Entry :=
  .directory [("a", .directory [("b.php", .file []), (".#b.php", .link "lock")])]

/-- The names of the files are distinct and ordinary. -/
theorem wellNamed_lockedTree : WellNamed lockedTree := by
  refine .directory (by decide) (by decide) (List.forall_mem_singleton.mpr ?_)
  refine .directory (by decide) (by decide) ?_
  simp [WellNamed.file, WellNamed.link]

/-- The link is listed beside the file. -/
theorem list_lockedTree : (list lockedTree [⟨[], ["a"]⟩] ["php"]).paths =
    [⟨[], ["a", ".#b.php"]⟩, ⟨[], ["a", "b.php"]⟩] := by cbv

/-- The link to the lock is broken. -/
theorem list_regularOrBroken_lock : BrokenLink lockedTree ⟨[], ["a", ".#b.php"]⟩ := by
  obtain ⟨listed, -⟩ := list_regularOrBroken wellNamed_lockedTree [⟨[], ["a"]⟩] ["php"]
  rw [list_lockedTree] at listed
  exact (listed _ List.mem_cons_self).resolve_left (by decide +kernel)

/-- A link to nothing is listed though it is no regular file, and reading what is listed fails. -/
theorem list_regularOrBroken_missing :
    (list lockedTree [⟨[], ["a"]⟩] ["php"]).paths =
        [⟨[], ["a", ".#b.php"]⟩, ⟨[], ["a", "b.php"]⟩] ∧
      isFile lockedTree ⟨[], ["a", ".#b.php"]⟩ = false ∧
      readAll lockedTree .utf8 (list lockedTree [⟨[], ["a"]⟩] ["php"]).paths =
        .error (.obstacle .missing ⟨[], ["a", ".#b.php"]⟩) := by
  rw [list_lockedTree]
  exact ⟨rfl, by decide +kernel, by rfl⟩

end Untranslated.FileTree
