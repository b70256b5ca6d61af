/-
This file proves what stays when the entries of directories are listed in another order, and when
one file is added to a tree.
-/

import Untranslated.Proofs.FileTree.Shape

namespace Untranslated.FileTree

/-- A name is looked for in the first entries, then in the others. -/
theorem Entry.member?_append (before after : List (Text × Entry)) (name : Text) :
    (Entry.directory (before ++ after)).member? name =
      ((Entry.directory before).member? name).or ((Entry.directory after).member? name) := by
  simp only [member?, List.find?_append]
  cases before.find? (·.1 = name) <;> simp

theorem Entry.member?_cons (own : Text) (entry : Entry) (rest : List (Text × Entry)) (name : Text) :
    (Entry.directory ((own, entry) :: rest)).member? name =
      if own = name then some entry else (Entry.directory rest).member? name := by
  simp only [member?, List.find?_cons]
  by_cases same : own = name <;> simp [same]

/-- A name that no entry has is not found. -/
theorem Entry.member?_absent {entries : List (Text × Entry)} {name : Text}
    (absent : ∀ entry ∈ entries, entry.1 ≠ name) :
    (Entry.directory entries).member? name = none := by
  simpa [member?] using absent

/-- Two entries with different names may change places. -/
theorem Entry.member?_swap (before after : List (Text × Entry)) {first second : Text × Entry}
    (different : first.1 ≠ second.1) (name : Text) :
    (Entry.directory (before ++ first :: second :: after)).member? name =
      (Entry.directory (before ++ second :: first :: after)).member? name := by
  obtain ⟨own, entry⟩ := first
  obtain ⟨other, otherEntry⟩ := second
  simp only [member?_append, member?_cons]
  by_cases isOwn : own = name
  · have notOther : other ≠ name := fun isOther => different (isOwn.trans isOther.symm)
    rw [if_pos isOwn, if_neg notOther, if_pos isOwn]
  · rw [if_neg isOwn, if_neg isOwn]

/-- What stands at a place is looked for name by name. -/
theorem Entry.shapeAt_cons (tree : Entry) (name : Text) (place : Place) :
    tree.shapeAt (name :: place) = (tree.member? name).bind (·.shapeAt place) := by
  rw [shapeAt, at?_cons]
  cases tree.member? name <;> rfl

/-- Two trees differ only in the order in which the entries of their directories are listed. -/
inductive Reordered : Entry → Entry → Prop where
  | refl (entry : Entry) : Reordered entry entry
  | swap (before after : List (Text × Entry)) {first second : Text × Entry}
      (different : first.1 ≠ second.1) :
      Reordered (.directory (before ++ first :: second :: after))
        (.directory (before ++ second :: first :: after))
  | inside (before after : List (Text × Entry)) (name : Text) {first second : Entry}
      (inner : Reordered first second) :
      Reordered (.directory (before ++ (name, first) :: after))
        (.directory (before ++ (name, second) :: after))
  | trans {first second third : Entry} (left : Reordered first second)
      (right : Reordered second third) : Reordered first third

section

variable {first second : Entry}

/-- The order may be changed back. -/
theorem Reordered.symm (same : Reordered first second) : Reordered second first := by
  induction same with
  | refl entry => exact .refl entry
  | swap before after different => exact .swap before after different.symm
  | inside before after name inner inductionHypothesis =>
      exact .inside before after name inductionHypothesis
  | trans left right first second => exact .trans second first

/-- The same stands at every place, whatever the order is. -/
theorem Reordered.shapeAt (same : Reordered first second) (place : Place) :
    first.shapeAt place = second.shapeAt place := by
  induction same generalizing place with
  | refl entry => rfl
  | swap before after different =>
      cases place with
      | nil => rfl
      | cons name place =>
          rw [Entry.shapeAt_cons, Entry.shapeAt_cons, Entry.member?_swap before after different]
  | inside before after own inner inductionHypothesis =>
      cases place with
      | nil => rfl
      | cons name place =>
          rw [Entry.shapeAt_cons, Entry.shapeAt_cons, Entry.member?_append, Entry.member?_append,
            Entry.member?_cons, Entry.member?_cons]
          cases (Entry.directory before).member? name with
          | some entry => rfl
          | none =>
              simp only [Option.none_or]
              split
              · exact inductionHypothesis place
              · rfl
  | trans left right first second => exact (first place).trans (second place)

/-- Paths lead to the same places. -/
theorem follow_congr (same : ∀ place, first.shapeAt place = second.shapeAt place) (links : Nat)
    (here : Place) (parts : List Text) :
    follow first links here parts = follow second links here parts := by
  induction links generalizing here parts with
  | zero => rfl
  | succ links inductionHypothesis =>
      rw [follow, follow]
      induction parts generalizing here with
      | nil => rw [followParts_nil, followParts_nil, same]
      | cons name rest inner =>
          simp only [followParts_cons, same, inner, inductionHypothesis]

/-- A path leads to the same place, whatever the order is. -/
theorem Reordered.locate (same : Reordered first second) (path : Path) :
    locate first path = locate second path :=
  follow_congr same.shapeAt _ _ _

/-- A path leads to a file in both trees or in neither. -/
theorem Reordered.isFile (same : Reordered first second) (path : Path) :
    isFile first path = isFile second path := by
  rw [Bool.eq_iff_iff, isFile_iff, isFile_iff, same.locate]
  simp only [same.shapeAt]

/-- A path leads to a directory in both trees or in neither. -/
theorem Reordered.isDirectory (same : Reordered first second) (path : Path) :
    isDirectory first path = isDirectory second path := by
  rw [Bool.eq_iff_iff, isDirectory_iff, isDirectory_iff, same.locate]
  simp only [same.shapeAt]

/-- A text that is read in one tree is read in the other. -/
theorem Reordered.readText_ok (same : Reordered first second) {encoding : Encoding} {path : Path}
    {text : List Char} (read : readText first encoding path = .ok text) :
    readText second encoding path = .ok text := by
  obtain ⟨content, chars, bytes, decoded, rfl⟩ := readText_eq_ok.mp read
  obtain ⟨place, found, shape⟩ := readBytes_eq_ok.mp bytes
  refine readText_eq_ok.mpr ⟨content, chars, readBytes_eq_ok.mpr ⟨place, ?_, ?_⟩, decoded, rfl⟩
  · rw [← same.locate, found]
  · rw [← same.shapeAt, shape]

/-- Whether a link leads to a directory depends on the shapes alone. -/
theorem fileBelow_congr {tree other : Entry}
    (same : ∀ place name, LeadsToDirectory tree place name ↔ LeadsToDirectory other place name)
    {place : Place} {entry : Entry} {names : List Text} :
    FileBelow tree place entry names ↔ FileBelow other place entry names := by
  constructor
  · intro below
    induction below with
    | file member => exact .file member
    | link member leads => exact .link member fun directory => leads ((same _ _).mpr directory)
    | inside member below inductionHypothesis => exact .inside member inductionHypothesis
  · intro below
    induction below with
    | file member => exact .file member
    | link member leads => exact .link member fun directory => leads ((same _ _).mp directory)
    | inside member below inductionHypothesis => exact .inside member inductionHypothesis

/-- An entry counts as a file in either order. -/
theorem Reordered.countsAsFile {tree : Entry} {place : Place} {name : Text}
    (same : Reordered first second) :
    countsAsFile tree place (name, first) = countsAsFile tree place (name, second) := by
  have shape := same.shapeAt []
  simp only [Entry.shapeAt, Entry.at?, Option.map_some, Option.some.injEq] at shape
  cases first <;> cases second <;> simp [Entry.shape] at shape <;> rfl

/-- The same files are below an entry, whatever the order is. -/
theorem Reordered.fileBelow_entry {tree : Entry} (same : Reordered first second) {place : Place}
    {names : List Text} :
    FileBelow tree place first names ↔ FileBelow tree place second names := by
  induction same generalizing place names with
  | refl entry => rfl
  | @swap before after one other different =>
      have members (named : Text × Entry) :
          named ∈ before ++ one :: other :: after ↔ named ∈ before ++ other :: one :: after :=
        (List.Perm.append_left before (List.Perm.swap _ _ after)).mem_iff
      simp only [fileBelow_directory, members]
  | @inside before after own one other inner inductionHypothesis =>
      have same : FileAt tree place (own, one) names ↔ FileAt tree place (own, other) names := by
        rw [FileAt, FileAt, inner.countsAsFile]
        simp only [inductionHypothesis]
      simp only [fileBelow_directory, List.mem_append, List.mem_cons, or_and_right, exists_or,
        exists_eq_left, same]
  | trans left right first second => exact first.trans second

/-- The same files are below a directory, however its entries are listed. -/
theorem Reordered.fileBelow (same : Reordered first second) {place : Place} {entry other : Entry}
    (inner : Reordered entry other) {names : List Text} :
    FileBelow first place entry names ↔ FileBelow second place other names := by
  have leads (place : Place) (name : Text) :
      LeadsToDirectory first place name ↔ LeadsToDirectory second place name := by
    simp only [leadsToDirectory_shape, follow_congr same.shapeAt, same.shapeAt]
  exact (fileBelow_congr leads).trans inner.fileBelow_entry

/-- Reordered trees have reordered entries at every place. -/
theorem Reordered.at? (same : Reordered first second) {place : Place} {entry : Entry}
    (found : first.at? place = some entry) :
    ∃ other, second.at? place = some other ∧ Reordered entry other := by
  induction same generalizing place entry with
  | refl tree => exact ⟨entry, found, .refl entry⟩
  | swap before after different =>
      cases place with
      | nil =>
          obtain rfl := Option.some.inj found
          exact ⟨_, rfl, .swap before after different⟩
      | cons name place =>
          rw [Entry.at?_cons, Entry.member?_swap before after different, ← Entry.at?_cons] at found
          exact ⟨entry, found, .refl entry⟩
  | inside before after own inner inductionHypothesis =>
      cases place with
      | nil =>
          obtain rfl := Option.some.inj found
          exact ⟨_, rfl, .inside before after own inner⟩
      | cons name place =>
          simp only [Entry.at?_cons, Entry.member?_append, Entry.member?_cons] at found ⊢
          cases earlier : (Entry.directory before).member? name with
          | some entry' =>
              rw [earlier] at found
              exact ⟨entry, found, .refl entry⟩
          | none =>
              rw [earlier] at found
              simp only [Option.none_or] at found ⊢
              split
              · rename_i isOwn
                rw [if_pos isOwn] at found
                exact inductionHypothesis found
              · rename_i notOwn
                rw [if_neg notOwn] at found
                exact ⟨entry, found, .refl entry⟩
  | trans left right first second =>
      obtain ⟨middle, foundMiddle, reordered⟩ := first found
      obtain ⟨last, foundLast, further⟩ := second foundMiddle
      exact ⟨last, foundLast, reordered.trans further⟩

end

/-- A tree has one file more than another one, at a place where nothing stands there. -/
inductive Added (content : Utf8.Bytes) : Place → Entry → Entry → Prop where
  | here (before after : List (Text × Entry)) {name : Text}
      (absent : ∀ entry ∈ before ++ after, entry.1 ≠ name) :
      Added content [name] (.directory (before ++ after))
        (.directory (before ++ (name, .file content) :: after))
  | inside (before after : List (Text × Entry)) {name : Text} {place : Place} {inner grown : Entry}
      (first : ∀ entry ∈ before, entry.1 ≠ name) (added : Added content place inner grown) :
      Added content (name :: place) (.directory (before ++ (name, inner) :: after))
        (.directory (before ++ (name, grown) :: after))

section

variable {content : Utf8.Bytes} {tree grown : Entry} {new : Place}

theorem Added.ne_nil (added : Added content new tree grown) : new ≠ [] := by
  cases added <;> simp

/-- A tree that a file is added to is a directory, and it stays one. -/
theorem Added.shapes (added : Added content new tree grown) :
    tree.shape = .directory ∧ grown.shape = .directory := by
  cases added <;> exact ⟨rfl, rfl⟩

/-- Above the new file stand the two versions of its directories, and elsewhere nothing changes. -/
theorem Added.at? (added : Added content new tree grown) (place : Place) :
    (∃ rest inner outer, new = place ++ rest ∧ tree.at? place = some inner ∧
      grown.at? place = some outer ∧ Added content rest inner outer) ∨
    (place = new ∧ tree.at? place = none ∧ grown.at? place = some (.file content)) ∨
    ((∀ rest, new ≠ place ++ rest) ∧ tree.at? place = grown.at? place) := by
  induction added generalizing place with
  | @here before after name absent =>
      cases place with
      | nil => exact .inl ⟨_, _, _, rfl, rfl, rfl, .here before after absent⟩
      | cons own place =>
          have absentBefore : (Entry.directory before).member? name = none :=
            Entry.member?_absent fun entry member => absent entry (List.mem_append_left _ member)
          have absentAfter : (Entry.directory after).member? name = none :=
            Entry.member?_absent fun entry member => absent entry (List.mem_append_right _ member)
          simp only [Entry.at?_cons, Entry.member?_append, Entry.member?_cons]
          by_cases same : name = own
          · subst same
            rw [absentBefore, absentAfter]
            cases place with
            | nil => exact .inr (.inl ⟨rfl, rfl, by simp [Entry.at?]⟩)
            | cons next place => exact .inr (.inr ⟨by simp, by simp [Entry.at?_cons, Entry.member?]⟩)
          · exact .inr (.inr ⟨by simp [same], by simp [same]⟩)
  | @inside before after name below inner outer first added inductionHypothesis =>
      cases place with
      | nil => exact .inl ⟨_, _, _, rfl, rfl, rfl, .inside before after first added⟩
      | cons own place =>
          have absent : (Entry.directory before).member? name = none := Entry.member?_absent first
          simp only [Entry.at?_cons, Entry.member?_append, Entry.member?_cons]
          by_cases same : name = own
          · subst same
            simpa [absent] using inductionHypothesis place
          · exact .inr (.inr ⟨by simp [same], by simp [same]⟩)

/-- Nothing stood at the place of the new file. -/
theorem Added.shapeAt_new (added : Added content new tree grown) :
    tree.shapeAt new = none ∧ grown.shapeAt new = some (.file content) := by
  rcases added.at? new with ⟨rest, inner, outer, split, -, -, further⟩ | ⟨-, absent, present⟩ |
      ⟨other, -⟩
  · exact absurd (by simpa using split) further.ne_nil
  · rw [Entry.shapeAt, Entry.shapeAt, absent, present]
    exact ⟨rfl, rfl⟩
  · exact absurd (List.append_nil new).symm (other [])

/-- At all other places stands what stood there before. -/
theorem Added.shapeAt_other (added : Added content new tree grown) {place : Place}
    (other : place ≠ new) : tree.shapeAt place = grown.shapeAt place := by
  rw [Entry.shapeAt, Entry.shapeAt]
  rcases added.at? place with ⟨rest, inner, outer, -, first, second, further⟩ | ⟨same, -⟩ |
      ⟨-, same⟩
  · rw [first, second, Option.map_some, Option.map_some, further.shapes.1, further.shapes.2]
  · exact absurd same other
  · rw [same]

/-- A path leads to the same place as before, or to the new file. -/
theorem Added.follow_eq_ok (added : Added content new tree grown) {links : Nat} {here : Place}
    {parts : List Text} {place : Place} :
    follow tree links here parts = .ok place ↔
      follow grown links here parts = .ok place ∧ place ≠ new := by
  obtain ⟨absent, present⟩ := added.shapeAt_new
  induction links generalizing here parts with
  | zero => simp [follow]
  | succ links inductionHypothesis =>
      rw [follow, follow]
      induction parts generalizing here with
      | nil =>
          rw [followParts_nil, followParts_nil]
          by_cases same : here = new
          · subst same
            simp only [absent, present, Option.isSome_none, Option.isSome_some, if_true,
              Bool.false_eq_true, if_false, reduceCtorEq, Except.ok.injEq, false_iff, not_and]
            exact fun found other => other found.symm
          · rw [added.shapeAt_other same]
            cases grown.shapeAt here with
            | none => simp
            | some shape =>
                simp only [Option.isSome_some, if_true, Except.ok.injEq, iff_self_and]
                exact fun found => found ▸ same
      | cons name rest inner =>
          rw [followParts_cons, followParts_cons]
          by_cases same : here = new
          · subst same
            simp [absent, present]
          · rw [added.shapeAt_other same]
            cases grown.shapeAt here with
            | none => simp
            | some shape =>
                cases shape with
                | file content => simp
                | link target => simp
                | directory =>
                    by_cases up : name = parent
                    · simp only [up, if_true]
                      exact inner
                    · simp only [up, if_false]
                      by_cases next : here ++ [name] = new
                      · rw [next, absent, present]
                        exact inner
                      · rw [added.shapeAt_other next]
                        cases grown.shapeAt (here ++ [name]) with
                        | none => exact inner
                        | some shape =>
                            cases shape with
                            | file content => exact inner
                            | link target => exact inductionHypothesis
                            | directory => exact inner

/-- A path leads where it led before, or to the new file. -/
theorem Added.locate_eq_ok (added : Added content new tree grown) {path : Path} {place : Place} :
    locate tree path = .ok place ↔ locate grown path = .ok place ∧ place ≠ new :=
  added.follow_eq_ok

/-- A new file makes and breaks no directory. -/
theorem Added.isDirectory (added : Added content new tree grown) (path : Path) :
    isDirectory tree path = isDirectory grown path := by
  rw [Bool.eq_iff_iff, isDirectory_iff, isDirectory_iff]
  constructor
  · rintro ⟨place, found, shape⟩
    obtain ⟨found, other⟩ := added.locate_eq_ok.mp found
    exact ⟨place, found, by rw [← added.shapeAt_other other, shape]⟩
  · rintro ⟨place, found, shape⟩
    have other : place ≠ new := by
      rintro rfl
      simp [added.shapeAt_new.2] at shape
    exact ⟨place, added.locate_eq_ok.mpr ⟨found, other⟩, by rw [added.shapeAt_other other, shape]⟩

/-- What was a file is one still, and the new file is one too. -/
theorem Added.isFile_iff (added : Added content new tree grown) {path : Path} :
    isFile grown path = true ↔ isFile tree path = true ∨ locate grown path = .ok new := by
  rw [FileTree.isFile_iff, FileTree.isFile_iff]
  constructor
  · rintro ⟨place, bytes, found, shape⟩
    by_cases same : place = new
    · exact .inr (same ▸ found)
    · exact .inl ⟨place, bytes, added.locate_eq_ok.mpr ⟨found, same⟩, by
        rw [added.shapeAt_other same, shape]⟩
  · rintro (⟨place, bytes, found, shape⟩ | found)
    · obtain ⟨found, other⟩ := added.locate_eq_ok.mp found
      exact ⟨place, bytes, found, by rw [← added.shapeAt_other other, shape]⟩
    · exact ⟨new, content, found, added.shapeAt_new.2⟩

/-- A text that could be read can still be read. -/
theorem Added.readText_ok (added : Added content new tree grown) {encoding : Encoding}
    {path : Path} {text : List Char} (read : readText tree encoding path = .ok text) :
    readText grown encoding path = .ok text := by
  obtain ⟨bytes, chars, content, decoded, rfl⟩ := readText_eq_ok.mp read
  obtain ⟨place, found, shape⟩ := readBytes_eq_ok.mp content
  obtain ⟨found, other⟩ := added.locate_eq_ok.mp found
  refine readText_eq_ok.mpr ⟨bytes, chars, readBytes_eq_ok.mpr ⟨place, found, ?_⟩, decoded, rfl⟩
  rw [← added.shapeAt_other other, shape]

/-- The new file is read under every path that leads to it. -/
theorem Added.readText_new (added : Added content new tree grown) {path : Path}
    (found : locate grown path = .ok new) {encoding : Encoding} {chars : List Char}
    (decoded : encoding.decode content = .ok chars) :
    readText grown encoding path = .ok (unifyLineEnds chars) :=
  readText_eq_ok.mpr
    ⟨content, chars, readBytes_eq_ok.mpr ⟨new, found, added.shapeAt_new.2⟩, decoded, rfl⟩

/-- A link leads to a directory as it did before. -/
theorem Added.leadsToDirectory (added : Added content new tree grown) (place : Place)
    (name : Text) : LeadsToDirectory tree place name ↔ LeadsToDirectory grown place name := by
  rw [leadsToDirectory_shape, leadsToDirectory_shape]
  constructor
  · rintro ⟨target, found, shape⟩
    obtain ⟨found, other⟩ := added.follow_eq_ok.mp found
    exact ⟨target, found, by rw [← added.shapeAt_other other, shape]⟩
  · rintro ⟨target, found, shape⟩
    have other : target ≠ new := by
      rintro rfl
      simp [added.shapeAt_new.2] at shape
    exact ⟨target, added.follow_eq_ok.mpr ⟨found, other⟩, by
      rw [added.shapeAt_other other, shape]⟩

/-- Below an entry there is the new file besides those that were there. -/
theorem Added.fileBelow_entry {whole : Entry} (added : Added content new tree grown)
    {place : Place} {names : List Text} :
    FileBelow whole place grown names ↔ FileBelow whole place tree names ∨ names = new := by
  induction added generalizing place names with
  | @here before after name absent =>
      have file : FileAt whole place (name, .file content) names ↔ names = [name] := by
        have none : ∀ rest, ¬ FileBelow whole (place ++ [name]) (.file content) rest := by
          intro rest below
          cases below
        simp [FileAt, none, countsAsFile_file]
      simp only [fileBelow_directory, List.mem_append, List.mem_cons, or_and_right, exists_or,
        exists_eq_left, file, or_assoc]
      exact or_congr_right or_comm
  | @inside before after name below inner outer first added inductionHypothesis =>
      have counts (entry : Entry) (shape : entry.shape = .directory) :
          countsAsFile whole place (name, entry) = false := by
        cases entry with
        | directory entries => rfl
        | file content => simp [Entry.shape] at shape
        | link target => simp [Entry.shape] at shape
      have grown : FileAt whole place (name, outer) names ↔
          FileAt whole place (name, inner) names ∨ names = name :: below := by
        simp only [FileAt, counts _ added.shapes.1, counts _ added.shapes.2, inductionHypothesis,
          Bool.false_eq_true, false_and, false_or, or_and_right, exists_or, exists_eq_left]
      simp only [fileBelow_directory, List.mem_append, List.mem_cons, or_and_right, exists_or,
        exists_eq_left, grown, or_assoc]
      exact or_congr_right (or_congr_right or_comm)

/-- The files below a directory are those of before, and the new file if it is below. -/
theorem Added.below_iff (added : Added content new tree grown) {directory : Path}
    {names : List Text} : Below grown directory names ↔
      Below tree directory names ∨
        ∃ place, locate grown directory = .ok place ∧ place ++ names = new ∧ names ≠ [] := by
  have leads := added.leadsToDirectory
  constructor
  · rintro ⟨place, entry, found, present, below⟩
    have other : place ≠ new := by
      rintro rfl
      have shape := added.shapeAt_new.2
      rw [Entry.shapeAt, present] at shape
      cases below <;> simp [Entry.shape] at shape
    have foundTree := added.locate_eq_ok.mpr ⟨found, other⟩
    rcases added.at? place with ⟨rest, inner, outer, split, first, second, further⟩ |
        ⟨same, -⟩ | ⟨-, same⟩
    · obtain rfl : outer = entry := Option.some.inj (second.symm.trans present)
      rcases further.fileBelow_entry.mp below with old | rfl
      · exact .inl ⟨place, inner, foundTree, first, (fileBelow_congr leads).mpr old⟩
      · exact .inr ⟨place, found, split.symm, further.ne_nil⟩
    · exact absurd same other
    · exact .inl ⟨place, entry, foundTree, same.trans present, (fileBelow_congr leads).mpr below⟩
  · rintro (⟨place, entry, found, present, below⟩ | ⟨place, found, rfl, some⟩)
    · have foundGrown := (added.locate_eq_ok.mp found).1
      have belowGrown := (fileBelow_congr leads).mp below
      rcases added.at? place with ⟨rest, inner, outer, -, first, second, further⟩ |
          ⟨-, absent, -⟩ | ⟨-, same⟩
      · obtain rfl : inner = entry := Option.some.inj (first.symm.trans present)
        exact ⟨place, outer, foundGrown, second, further.fileBelow_entry.mpr (.inl belowGrown)⟩
      · simp [absent] at present
      · exact ⟨place, entry, foundGrown, same.symm.trans present, belowGrown⟩
    · rcases added.at? place with ⟨rest, inner, outer, split, -, second, further⟩ | ⟨same, -⟩ |
          ⟨other, -⟩
      · obtain rfl : names = rest := List.append_cancel_left split
        exact ⟨place, outer, found, second, further.fileBelow_entry.mpr (.inr rfl)⟩
      · exact absurd (List.append_right_eq_self.mp same.symm) some
      · exact absurd rfl (other names)

/-- The same files are below a path, whatever the order is. -/
theorem Reordered.below_iff {first second : Entry} (same : Reordered first second)
    {directory : Path} {names : List Text} :
    Below first directory names ↔ Below second directory names := by
  have half {first second : Entry} (same : Reordered first second)
      (below : Below first directory names) : Below second directory names := by
    obtain ⟨place, entry, found, present, below⟩ := below
    obtain ⟨other, presentOther, inner⟩ := same.at? present
    exact ⟨place, other, same.locate directory ▸ found, presentOther,
      (same.fileBelow inner).mp below⟩
  exact ⟨half same, half same.symm⟩

/-- A directory lists a name. -/
def Lists (tree : Entry) (directory : Path) (name : Text) : Prop :=
  ∃ entry inner, lookup? tree directory = some entry ∧ (name, inner) ∈ entry.members

/-- A directory lists the names of its entries. -/
theorem lists_iff {tree : Entry} {directory : Path} {name : Text} :
    Lists tree directory name ↔ ∃ place entry inner, locate tree directory = .ok place ∧
      tree.at? place = some entry ∧ (name, inner) ∈ entry.members := by
  unfold Lists lookup?
  cases locate tree directory with
  | error obstacle => simp
  | ok place => simp

/-- The same names are in a directory, whatever the order is. -/
theorem Reordered.mem_members {first second : Entry} (same : Reordered first second)
    {name : Text} {inner : Entry} (member : (name, inner) ∈ first.members) :
    ∃ other, (name, other) ∈ second.members := by
  induction same generalizing inner with
  | refl entry => exact ⟨inner, member⟩
  | @swap before after one other different =>
      exact ⟨inner, (List.Perm.append_left before (List.Perm.swap _ _ after)).mem_iff.mp member⟩
  | @inside before after own one other further inductionHypothesis =>
      simp only [Entry.members, List.mem_append, List.mem_cons, Prod.mk.injEq] at member ⊢
      rcases member with earlier | ⟨same, -⟩ | later
      · exact ⟨inner, .inl earlier⟩
      · exact ⟨other, .inr (.inl ⟨same, rfl⟩)⟩
      · exact ⟨inner, .inr (.inr later)⟩
  | trans left right first second =>
      obtain ⟨middle, found⟩ := first member
      exact second found

/-- A directory lists the same names, whatever the order is. -/
theorem Reordered.lists_iff {first second : Entry} (same : Reordered first second)
    {directory : Path} {name : Text} : Lists first directory name ↔ Lists second directory name := by
  have half {first second : Entry} (same : Reordered first second)
      (listed : Lists first directory name) : Lists second directory name := by
    obtain ⟨place, entry, inner, found, present, member⟩ := FileTree.lists_iff.mp listed
    obtain ⟨other, presentOther, further⟩ := same.at? present
    obtain ⟨otherInner, memberOther⟩ := further.mem_members member
    exact FileTree.lists_iff.mpr
      ⟨place, other, otherInner, same.locate directory ▸ found, presentOther, memberOther⟩
  exact ⟨half same, half same.symm⟩

/-- A directory has the new name besides those that it had. -/
theorem Added.mem_members (added : Added content new tree grown) {name : Text} :
    (∃ inner, (name, inner) ∈ grown.members) ↔
      (∃ inner, (name, inner) ∈ tree.members) ∨ new = [name] := by
  cases added with
  | @here before after own absent =>
      simp only [Entry.members, List.mem_append, List.mem_cons, Prod.mk.injEq, exists_or,
        exists_and_left, exists_eq, and_true, List.cons.injEq, or_assoc]
      exact or_congr_right (or_comm.trans (or_congr_right eq_comm))
  | @inside before after own below inner outer first further =>
      have some := further.ne_nil
      simp [Entry.members, exists_or, some]

/-- The names in directories are those of before, and the one of the new file. -/
theorem Added.lists_iff (added : Added content new tree grown) {directory : Path} {name : Text} :
    Lists grown directory name ↔ Lists tree directory name ∨
      ∃ place, locate grown directory = .ok place ∧ place ++ [name] = new := by
  rw [FileTree.lists_iff, FileTree.lists_iff]
  constructor
  · rintro ⟨place, entry, member, found, present, listed⟩
    have other : place ≠ new := by
      rintro rfl
      have shape := added.shapeAt_new.2
      rw [Entry.shapeAt, present] at shape
      cases entry with
      | directory entries => simp [Entry.shape] at shape
      | file bytes => simp [Entry.members] at listed
      | link target => simp [Entry.members] at listed
    have foundTree := added.locate_eq_ok.mpr ⟨found, other⟩
    rcases added.at? place with ⟨rest, inner, outer, split, first, second, further⟩ |
        ⟨same, -⟩ | ⟨-, same⟩
    · obtain rfl : outer = entry := Option.some.inj (second.symm.trans present)
      rcases further.mem_members.mp ⟨member, listed⟩ with ⟨old, listed⟩ | rfl
      · exact .inl ⟨place, inner, old, foundTree, first, listed⟩
      · exact .inr ⟨place, found, split.symm⟩
    · exact absurd same other
    · exact .inl ⟨place, entry, member, foundTree, same.trans present, listed⟩
  · rintro (⟨place, entry, member, found, present, listed⟩ | ⟨place, found, rfl⟩)
    · have foundGrown := (added.locate_eq_ok.mp found).1
      rcases added.at? place with ⟨rest, inner, outer, -, first, second, further⟩ |
          ⟨-, absent, -⟩ | ⟨-, same⟩
      · obtain rfl : inner = entry := Option.some.inj (first.symm.trans present)
        obtain ⟨later, listed⟩ := further.mem_members.mpr (.inl ⟨member, listed⟩)
        exact ⟨place, outer, later, foundGrown, second, listed⟩
      · simp [absent] at present
      · exact ⟨place, entry, member, foundGrown, same.symm.trans present, listed⟩
    · rcases added.at? place with ⟨rest, inner, outer, split, -, second, further⟩ | ⟨same, -⟩ |
          ⟨other, -⟩
      · obtain rfl : [name] = rest := List.append_cancel_left split
        obtain ⟨later, listed⟩ := further.mem_members.mpr (.inr rfl)
        exact ⟨place, outer, later, found, second, listed⟩
      · simp at same
      · exact absurd rfl (other [name])

end

end Untranslated.FileTree
