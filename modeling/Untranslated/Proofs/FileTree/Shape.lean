/-
This file proves that following a path, and what is read there, depends only on what stands at the
places of a tree.
-/

import Untranslated.Proofs.FileTree.Listing

namespace Untranslated.FileTree

/-- What a path can lead to, without what is in it. -/
inductive Shape where
  | file (content : Utf8.Bytes)
  | link (target : Text)
  | directory

/-- What an entry is, without what is in it. -/
def Entry.shape : Entry → Shape
  | .file content => .file content
  | .link target => .link target
  | .directory _ => .directory

/-- What stands at a place of a tree. -/
def Entry.shapeAt (tree : Entry) (place : Place) : Option Shape := (tree.at? place).map Entry.shape

/-- A place is found name by name. -/
theorem Entry.at?_cons (tree : Entry) (name : Text) (place : Place) :
    tree.at? (name :: place) = (tree.member? name).bind (·.at? place) := by
  rw [at?]
  cases tree.member? name <;> rfl

/-- A place is found in two parts. -/
theorem Entry.at?_append (tree : Entry) (first second : Place) :
    tree.at? (first ++ second) = (tree.at? first).bind (·.at? second) := by
  induction first generalizing tree with
  | nil => simp [at?]
  | cons name rest inductionHypothesis =>
      rw [List.cons_append, at?_cons, at?_cons, Option.bind_assoc]
      exact Option.bind_congr fun entry _ => inductionHypothesis entry

/-- A place is found below the one above it. -/
theorem Entry.at?_append_singleton (tree : Entry) (place : Place) (name : Text) :
    tree.at? (place ++ [name]) = (tree.at? place).bind (·.member? name) := by
  rw [at?_append]
  refine Option.bind_congr fun entry _ => ?_
  rw [at?_cons]
  cases entry.member? name <;> rfl

/-- Nothing is in a file or in a link. -/
theorem Entry.shapeAt_prefix {tree : Entry} {place : Place} {name : Text} {rest : Place}
    (present : (tree.shapeAt (place ++ name :: rest)).isSome = true) :
    tree.shapeAt place = some .directory := by
  rw [shapeAt, at?_append] at present
  rw [shapeAt]
  cases found : tree.at? place with
  | none => simp [found] at present
  | some entry =>
      rw [found, Option.bind_some, at?_cons] at present
      cases entry with
      | directory entries => rfl
      | file content => simp [member?] at present
      | link target => simp [member?] at present

section

variable {tree : Entry} {path : Path}

/-- A path is followed by what stands at places alone. -/
theorem followParts_cons (followLink : Place → List Text → Except Obstacle Place) (here : Place)
    (name : Text) (rest : List Text) :
    followParts tree followLink here (name :: rest) =
      match tree.shapeAt here with
      | none => .error .missing
      | some .directory =>
        if name = parent then followParts tree followLink (above here) rest
        else
          match tree.shapeAt (here ++ [name]) with
          | some (.link target) =>
            followLink (placeFor here (Path.ofText target)) ((Path.ofText target).parts ++ rest)
          | _ => followParts tree followLink (here ++ [name]) rest
      | some _ => .error .notDirectory := by
  rw [followParts, Entry.shapeAt, Entry.shapeAt, Entry.at?_append_singleton]
  cases tree.at? here with
  | none => rfl
  | some entry =>
      cases entry with
      | file content => rfl
      | link target => rfl
      | directory entries =>
          simp only [Option.map_some, Entry.shape, Option.bind_some]
          split
          · rfl
          · cases (Entry.directory entries).member? name with
            | none => rfl
            | some inner => cases inner <;> rfl

theorem followParts_nil (followLink : Place → List Text → Except Obstacle Place) (here : Place) :
    followParts tree followLink here [] =
      if (tree.shapeAt here).isSome then .ok here else .error .missing := by
  rw [followParts, Entry.shapeAt, Option.isSome_map]

/-- A path leads to a directory just when it leads to the place of one. -/
theorem isDirectory_iff : isDirectory tree path = true ↔
    ∃ place, locate tree path = .ok place ∧ tree.shapeAt place = some .directory := by
  rw [isDirectory, lookup?]
  cases locate tree path with
  | error obstacle => simp
  | ok place =>
      simp only [Except.ok.injEq, exists_eq_left', Entry.shapeAt]
      cases tree.at? place with
      | none => simp
      | some entry => cases entry <;> simp [Entry.isDirectory, Entry.shape]

/-- A path leads to a file just when it leads to the place of one. -/
theorem isFile_iff : isFile tree path = true ↔
    ∃ place content, locate tree path = .ok place ∧
      tree.shapeAt place = some (.file content) := by
  rw [isFile, lookup?]
  cases locate tree path with
  | error obstacle => simp
  | ok place =>
      simp only [Except.ok.injEq, exists_and_left, exists_eq_left', Entry.shapeAt]
      cases tree.at? place with
      | none => simp
      | some entry => cases entry <;> simp [Entry.isFile, Entry.shape]

/-- The bytes that are read are those of the file to which the path leads. -/
theorem readBytes_eq_ok {content : Utf8.Bytes} : readBytes tree path = .ok content ↔
    ∃ place, locate tree path = .ok place ∧ tree.shapeAt place = some (.file content) := by
  rw [readBytes]
  cases locate tree path with
  | error obstacle => simp
  | ok place =>
      simp only [Except.ok.injEq, Entry.shapeAt]
      cases found : tree.at? place with
      | none => simp [found]
      | some entry => cases entry <;> simp [found, Entry.shape]

/-- A text is read by decoding the bytes, with its line ends made one. -/
theorem readText_eq_ok {encoding : Encoding} {text : List Char} :
    readText tree encoding path = .ok text ↔
      ∃ content chars, readBytes tree path = .ok content ∧
        encoding.decode content = .ok chars ∧ text = unifyLineEnds chars := by
  rw [readText]
  cases readBytes tree path with
  | error e => simp [bind, Except.bind]
  | ok content =>
      simp only [bind, Except.bind, Except.ok.injEq]
      cases decoded : encoding.decode content with
      | error e => simp [decoded, throw, throwThe, MonadExceptOf.throw]
      | ok chars => simp [decoded, pure, Except.pure, eq_comm]

/-- What is read is a regular file. -/
theorem isFile_of_readText {encoding : Encoding} {text : List Char}
    (read : readText tree encoding path = .ok text) : isFile tree path = true := by
  obtain ⟨content, chars, bytes, -, -⟩ := readText_eq_ok.mp read
  obtain ⟨place, found, shape⟩ := readBytes_eq_ok.mp bytes
  exact isFile_iff.mpr ⟨place, content, found, shape⟩

/-- A link leads to a directory just when it leads to the place of one. -/
theorem leadsToDirectory_shape {place : Place} {name : Text} : LeadsToDirectory tree place name ↔
    ∃ target, follow tree (linkLimit + 1) place [name] = .ok target ∧
      tree.shapeAt target = some .directory := by
  rw [leadsToDirectory_iff]
  refine exists_congr fun target => and_congr_right fun _ => ?_
  rw [Entry.shapeAt]
  cases tree.at? target with
  | none => simp
  | some entry => cases entry <;> simp [Entry.isDirectory, Entry.shape]

end

section

variable {tree : Entry} {place : Place} {names : List Text} {content : Utf8.Bytes}

/-- From a directory one comes down to a file by the names on the way. -/
theorem followParts_down (followLink : Place → List Text → Except Obstacle Place)
    (present : tree.shapeAt (place ++ names) = some (.file content))
    (ordinary : ∀ name ∈ names, name ≠ parent) :
    followParts tree followLink place names = .ok (place ++ names) := by
  induction names generalizing place with
  | nil =>
      rw [List.append_nil] at present ⊢
      rw [followParts_nil, present]
      rfl
  | cons name rest inductionHypothesis =>
      have above : tree.shapeAt place = some .directory :=
        Entry.shapeAt_prefix (by rw [present]; rfl)
      have down : place ++ name :: rest = (place ++ [name]) ++ rest := by simp
      -- What stands in between is a directory, and the file itself is no link.
      have noLink : ∀ target, tree.shapeAt (place ++ [name]) ≠ some (.link target) := by
        intro target link
        cases rest with
        | nil => simp [present] at link
        | cons next rest =>
            rw [down] at present
            rw [Entry.shapeAt_prefix (by rw [present]; rfl)] at link
            simp at link
      have later : followParts tree followLink (place ++ [name]) rest =
          .ok ((place ++ [name]) ++ rest) :=
        inductionHypothesis (by rw [← down, present])
          fun name member => ordinary name (List.mem_cons_of_mem _ member)
      rw [followParts_cons, above]
      simp only [ordinary name List.mem_cons_self, if_false]
      rw [down]
      exact later

/-- Ordinary names lead down to a file that is there. -/
theorem follow_descend {links : Nat} {here : Place} {parts : List Text}
    (found : follow tree links here parts = .ok place)
    (present : tree.shapeAt (place ++ names) = some (.file content))
    (ordinary : ∀ name ∈ names, name ≠ parent) :
    follow tree links here (parts ++ names) = .ok (place ++ names) := by
  induction links generalizing here parts with
  | zero => simp [follow] at found
  | succ links inductionHypothesis =>
      rw [follow] at found ⊢
      induction parts generalizing here with
      | nil =>
          have same : here = place := by
            rw [followParts_nil] at found
            split at found
            · exact Except.ok.inj found
            · simp at found
          subst same
          exact followParts_down _ present ordinary
      | cons name rest inner =>
          rw [List.cons_append, followParts_cons]
          rw [followParts_cons] at found
          cases here' : tree.shapeAt here with
          | none => simp [here'] at found
          | some shape =>
              cases shape with
              | file content => simp [here'] at found
              | link target => simp [here'] at found
              | directory =>
                  simp only [here'] at found ⊢
                  split at found
                  · rename_i up
                    rw [if_pos up]
                    exact inner found
                  · rename_i down
                    rw [if_neg down]
                    split at found
                    · rw [← List.append_assoc]
                      exact inductionHypothesis found
                    · exact inner found

/-- A path with ordinary names behind it leads down to a file that is there. -/
theorem locate_descend {path : Path} (found : locate tree path = .ok place)
    (present : tree.shapeAt (place ++ names) = some (.file content))
    (ordinary : ∀ name ∈ names, name ≠ parent) :
    locate tree (path.descend names) = .ok (place ++ names) :=
  follow_descend found present ordinary

/-- What is found stands there. -/
theorem follow_present {links : Nat} {here : Place} {parts : List Text}
    (found : follow tree links here parts = .ok place) : (tree.shapeAt place).isSome = true := by
  induction links generalizing here parts with
  | zero => simp [follow] at found
  | succ links inductionHypothesis =>
      rw [follow] at found
      induction parts generalizing here with
      | nil =>
          rw [followParts_nil] at found
          split at found
          · rename_i present
            exact Except.ok.inj found ▸ present
          · simp at found
      | cons name rest inner =>
          rw [followParts_cons] at found
          split at found
          · simp at found
          · split at found
            · exact inner found
            · split at found
              · exact inductionHypothesis found
              · exact inner found
          · simp at found

end

end Untranslated.FileTree
