/-
This file says where paths lead when every link is replaced by the place that it leads to, and
proves that resolving a path finds that place. Only links in a circle lead nowhere.
-/

import Mathlib.Data.List.Perm.Subperm
import Mathlib.Logic.Relation
import Mathlib.Order.WellFoundedSet
import Untranslated.Proofs.FileTree.Shape

namespace Untranslated.FileTree

/-- Parts lead from one place to another over so many links. What is missing is passed as it is
written. -/
inductive Leads (tree : Entry) : Nat → Place → List Text → Place → Prop where
  | done (here : Place) : Leads tree 0 here [] here
  | up {count : Nat} {here place : Place} {rest : List Text}
      (further : Leads tree count (above here) rest place) :
      Leads tree count here (parent :: rest) place
  | plain {count : Nat} {here place : Place} {name : Text} {rest : List Text}
      (down : name ≠ parent) (noLink : ∀ target, tree.shapeAt (here ++ [name]) ≠ some (.link target))
      (further : Leads tree count (here ++ [name]) rest place) :
      Leads tree count here (name :: rest) place
  | link {inner outer : Nat} {here middle place : Place} {name target : Text} {rest : List Text}
      (down : name ≠ parent) (is : tree.shapeAt (here ++ [name]) = some (.link target))
      (inside : Leads tree inner (placeFor here (Path.ofText target)) (Path.ofText target).parts
        middle)
      (further : Leads tree outer middle rest place) :
      Leads tree (inner + outer + 1) here (name :: rest) place

/-- A link leads to a place over so many further links. -/
def LinkLeads (tree : Entry) (count : Nat) (link place : Place) : Prop :=
  ∃ here name target, link = here ++ [name] ∧ tree.shapeAt link = some (.link target) ∧
    Leads tree count (placeFor here (Path.ofText target)) (Path.ofText target).parts place

section

variable {tree : Entry} {count : Nat} {here place : Place} {parts : List Text}

/-- There is one place that parts lead to, and one way there. -/
theorem Leads.unique (leads : Leads tree count here parts place) {count' : Nat} {place' : Place}
    (leads' : Leads tree count' here parts place') : count = count' ∧ place = place' := by
  induction leads generalizing count' place' with
  | done here =>
      cases leads'
      exact ⟨rfl, rfl⟩
  | up further inductionHypothesis =>
      cases leads' with
      | up further' => exact inductionHypothesis further'
      | plain down => exact absurd rfl down
      | link down => exact absurd rfl down
  | plain down noLink further inductionHypothesis =>
      cases leads' with
      | up => exact absurd rfl down
      | plain _ _ further' => exact inductionHypothesis further'
      | link _ is => exact absurd is (noLink _)
  | link down is inside further insideHypothesis inductionHypothesis =>
      cases leads' with
      | up => exact absurd rfl down
      | plain _ noLink => exact absurd is (noLink _)
      | link _ is' inside' further' =>
          obtain rfl := Shape.link.inj (Option.some.inj (is.symm.trans is'))
          obtain ⟨rfl, rfl⟩ := insideHypothesis inside'
          obtain ⟨rfl, rfl⟩ := inductionHypothesis further'
          exact ⟨rfl, rfl⟩

/-- It takes one number of links to come to the end of a link. -/
theorem LinkLeads.unique {link : Place} (leads : LinkLeads tree count link place) {count' : Nat}
    {place' : Place} (leads' : LinkLeads tree count' link place') : count = count' := by
  obtain ⟨here, name, target, rfl, is, inside⟩ := leads
  obtain ⟨here', name', target', same, is', inside'⟩ := leads'
  obtain ⟨rfl, rfl⟩ := List.append_singleton_inj.mp same
  obtain rfl := Shape.link.inj (Option.some.inj (is.symm.trans is'))
  exact (inside.unique inside').1

/-- Parts lead where the first of them lead, and from there the others. -/
theorem Leads.split {first second : List Text} (leads : Leads tree count here (first ++ second) place) :
    ∃ before after middle, count = before + after ∧ Leads tree before here first middle ∧
      Leads tree after middle second place := by
  induction first generalizing count here with
  | nil => exact ⟨0, count, here, (Nat.zero_add count).symm, .done here, leads⟩
  | cons name rest inductionHypothesis =>
      rw [List.cons_append] at leads
      cases leads with
      | up further =>
          obtain ⟨before, after, middle, rfl, first, second⟩ := inductionHypothesis further
          exact ⟨before, after, middle, rfl, .up first, second⟩
      | plain down noLink further =>
          obtain ⟨before, after, middle, rfl, first, second⟩ := inductionHypothesis further
          exact ⟨before, after, middle, rfl, .plain down noLink first, second⟩
      | @link inner outer _ _ _ _ _ _ down is inside further =>
          obtain ⟨before, after, middle, rfl, first, second⟩ := inductionHypothesis further
          exact ⟨inner + before + 1, after, middle, by omega, .link down is inside first, second⟩

/-- Parts may follow where other parts lead. -/
theorem Leads.append {first second : List Text} {more : Nat} {last : Place}
    (leads : Leads tree count here first place) (further : Leads tree more place second last) :
    Leads tree (count + more) here (first ++ second) last := by
  induction leads with
  | done here => exact (Nat.zero_add more).symm ▸ further
  | up _ inductionHypothesis => exact .up (inductionHypothesis further)
  | plain down noLink _ inductionHypothesis =>
      exact .plain down noLink (inductionHypothesis further)
  | @link inner outer _ _ _ _ _ _ down is inside _ _ inductionHypothesis =>
      have along := Leads.link down is inside (inductionHypothesis further)
      rwa [show inner + (outer + more) + 1 = inner + outer + 1 + more by omega] at along

/-- Where parts lead depends on the links of a tree alone. -/
theorem Leads.congr {other : Entry} (same : ∀ place, tree.shapeAt place = other.shapeAt place)
    (leads : Leads tree count here parts place) : Leads other count here parts place := by
  induction leads with
  | done here => exact .done here
  | up further inductionHypothesis => exact .up inductionHypothesis
  | plain down noLink further inductionHypothesis =>
      exact .plain down (fun target => same _ ▸ noLink target) inductionHypothesis
  | link down is inside further insideHypothesis inductionHypothesis =>
      exact .link down (same _ ▸ is) insideHypothesis inductionHypothesis

end

mutual

/-- A link that stands somewhere is one of the links of the tree. -/
theorem mem_links {tree : Entry} {place : Place} {target : Text}
    (found : tree.at? place = some (.link target)) : place ∈ tree.links := by
  match tree, place with
  | .file content, [] => simp [Entry.at?] at found
  | .link own, [] => simp [Entry.links]
  | .directory entries, [] => simp [Entry.at?] at found
  | .file content, name :: rest => simp [Entry.at?, Entry.member?] at found
  | .link own, name :: rest => simp [Entry.at?, Entry.member?] at found
  | .directory entries, name :: rest =>
      rw [Entry.at?_cons] at found
      obtain ⟨entry, member, found⟩ := Option.bind_eq_some_iff.mp found
      exact mem_linksAmong member found

/-- A link below an entry is one of the links among the entries. -/
theorem mem_linksAmong {entries : List (Text × Entry)} {name : Text} {entry : Entry}
    {place : Place} {target : Text} (member : (Entry.directory entries).member? name = some entry)
    (found : entry.at? place = some (.link target)) : name :: place ∈ linksAmong entries := by
  match entries with
  | [] => simp [Entry.member?] at member
  | (own, first) :: rest =>
      rw [linksAmong, List.mem_append]
      by_cases same : own = name
      · subst same
        obtain rfl : first = entry := by simpa [Entry.member?] using member
        exact .inl (List.mem_map_of_mem (mem_links found))
      · have later : (Entry.directory rest).member? name = some entry := by
          simpa [Entry.member?, same] using member
        exact .inr (mem_linksAmong later found)

end

/-- A place with the shape of a link is one of the links of the tree. -/
theorem mem_links_shape {tree : Entry} {place : Place} {target : Text}
    (is : tree.shapeAt place = some (.link target)) : place ∈ tree.links := by
  rw [Entry.shapeAt] at is
  obtain ⟨entry, found, shape⟩ := Option.map_eq_some_iff.mp is
  cases entry with
  | link own => exact mem_links found
  | file content => cases shape
  | directory entries => cases shape

/-- A part leads up, down, or through a link. -/
theorem canonicalParts_cons {tree : Entry}
    (followLink : Place → Place → List Text → Except Place Place) (here : Place) (name : Text)
    (rest : List Text) :
    canonicalParts tree followLink here (name :: rest) =
      if name = parent then canonicalParts tree followLink (above here) rest
      else
        match tree.shapeAt (here ++ [name]) with
        | some (.link target) =>
          match followLink (here ++ [name]) (placeFor here (Path.ofText target))
              (Path.ofText target).parts with
          | .ok place => canonicalParts tree followLink place rest
          | .error place => .error (asWritten place rest)
        | _ => canonicalParts tree followLink (here ++ [name]) rest := by
  rw [canonicalParts, Entry.shapeAt]
  cases tree.at? (here ++ [name]) with
  | none => rfl
  | some entry => cases entry <;> rfl

/-- A place that is found is where the parts lead. -/
theorem leads_of_canonicalWithin {tree : Entry} {depth : Nat} {followed : List Place}
    {here place : Place} {parts : List Text}
    (found : canonicalWithin tree depth followed here parts = .ok place) :
    ∃ count, Leads tree count here parts place := by
  induction depth generalizing followed here parts place with
  | zero => cases found
  | succ depth inductionHypothesis =>
      rw [canonicalWithin] at found
      induction parts generalizing here with
      | nil =>
          obtain rfl := Except.ok.inj found
          exact ⟨0, .done here⟩
      | cons name rest along =>
          rw [canonicalParts_cons] at found
          split at found
          · rename_i up
            subst up
            obtain ⟨count, further⟩ := along found
            exact ⟨count, .up further⟩
          · rename_i down
            split at found
            · rename_i target is
              split at found
              · rename_i middle step
                split at step
                · cases step
                · obtain ⟨inner, inside⟩ := inductionHypothesis step
                  obtain ⟨outer, further⟩ := along found
                  exact ⟨_, .link down is inside further⟩
              · cases found
            · rename_i noLink
              obtain ⟨count, further⟩ := along found
              exact ⟨count, .plain down noLink further⟩

/-- The links that are being followed are distinct, and it takes as many links at least to come to
the end of each as to come to the end of what is left. -/
structure Open (tree : Entry) (count : Nat) (followed : List Place) : Prop where
  distinct : followed.Nodup
  inside : ∀ link ∈ followed, link ∈ tree.links
  longer : ∀ link ∈ followed, ∃ own place, LinkLeads tree own link place ∧ count ≤ own

section

variable {tree : Entry} {count : Nat} {followed : List Place} {here place : Place}
  {parts : List Text}

theorem open_nil : Open tree count [] := ⟨List.nodup_nil, by simp, by simp⟩

/-- Links that are open for a way are open for a shorter one. -/
theorem Open.mono (opened : Open tree count followed) {fewer : Nat} (few : fewer ≤ count) :
    Open tree fewer followed where
  distinct := opened.distinct
  inside := opened.inside
  longer link member := by
    obtain ⟨own, place, leads, long⟩ := opened.longer link member
    exact ⟨own, place, leads, Nat.le_trans few long⟩

/-- A link is not met again on the way to its own end. -/
theorem Open.not_mem (opened : Open tree count followed) {own : Nat} {link : Place}
    (leads : LinkLeads tree own link place) (short : own < count) : link ∉ followed := by
  intro member
  obtain ⟨own', place', leads', long⟩ := opened.longer link member
  obtain rfl := leads.unique leads'
  omega

/-- A link may be opened if it comes to its end sooner than what is left. -/
theorem Open.cons (opened : Open tree count followed) {own : Nat} {link : Place}
    (leads : LinkLeads tree own link place) (short : own < count) :
    Open tree own (link :: followed) where
  distinct := List.nodup_cons.mpr ⟨opened.not_mem leads short, opened.distinct⟩
  inside := by
    obtain ⟨here, name, target, same, is, -⟩ := leads
    exact List.forall_mem_cons.mpr ⟨mem_links_shape is, opened.inside⟩
  longer := List.forall_mem_cons.mpr
    ⟨⟨own, place, leads, Nat.le_refl own⟩, (opened.mono (Nat.le_of_lt short)).longer⟩

/-- Not more links are followed at once than there are. -/
theorem Open.length_le (opened : Open tree count followed) :
    followed.length ≤ tree.links.length :=
  (opened.distinct.subperm opened.inside).length_le

/-- Where parts lead is found, if the links that are left can be followed inside each other. -/
theorem canonicalWithin_of_leads (leads : Leads tree count here parts place) {depth : Nat}
    (deep : tree.links.length < depth + followed.length) (opened : Open tree count followed) :
    canonicalWithin tree depth followed here parts = .ok place := by
  induction leads generalizing depth followed with
  | done here =>
      cases depth with
      | zero => exact absurd opened.length_le (by omega)
      | succ depth => rfl
  | up further inductionHypothesis =>
      cases depth with
      | zero => exact absurd opened.length_le (by omega)
      | succ depth =>
          rw [canonicalWithin, canonicalParts_cons, if_pos rfl]
          exact inductionHypothesis deep opened
  | plain down noLink further inductionHypothesis =>
      cases depth with
      | zero => exact absurd opened.length_le (by omega)
      | succ depth =>
          rw [canonicalWithin, canonicalParts_cons, if_neg down]
          split
          · rename_i target is
            exact absurd is (noLink target)
          · exact inductionHypothesis deep opened
  | @link inner outer here middle place name target rest down is inside further insideHypothesis
      inductionHypothesis =>
      cases depth with
      | zero => exact absurd opened.length_le (by omega)
      | succ depth =>
          have linkLeads : LinkLeads tree inner (here ++ [name]) middle :=
            ⟨here, name, target, rfl, is, inside⟩
          have short : inner < inner + outer + 1 := by omega
          have fresh : followed.contains (here ++ [name]) = false := by
            simpa using opened.not_mem linkLeads short
          have deeper : tree.links.length < depth + ((here ++ [name]) :: followed).length := by
            rw [List.length_cons]
            omega
          have step := insideHypothesis deeper (opened.cons linkLeads short)
          rw [canonicalWithin, canonicalParts_cons, if_neg down, is]
          simp only [fresh, Bool.false_eq_true, if_false, step]
          exact inductionHypothesis deep (opened.mono (by omega))

/-- Resolving parts finds exactly where they lead. -/
theorem canonicalFrom_eq_ok :
    canonicalFrom tree here parts = .ok place ↔ ∃ count, Leads tree count here parts place := by
  constructor
  · exact leads_of_canonicalWithin
  · rintro ⟨count, leads⟩
    exact canonicalWithin_of_leads leads (Nat.lt_succ_self _) open_nil

end

/-- On the way of a link another link is met. -/
def Meets (tree : Entry) (link other : Place) : Prop :=
  ∃ here own target before name after count middle next,
    link = here ++ [own] ∧ tree.shapeAt link = some (.link target) ∧
      (Path.ofText target).parts = before ++ name :: after ∧
      Leads tree count (placeFor here (Path.ofText target)) before middle ∧
      name ≠ parent ∧ other = middle ++ [name] ∧ tree.shapeAt other = some (.link next)

/-- No link leads back to itself. -/
def LoopFree (tree : Entry) : Prop := ∀ link, ¬ Relation.TransGen (Meets tree) link link

section

variable {tree : Entry}

/-- A link and the links on its way are links of the tree. -/
theorem Meets.mem_links {link other : Place} (meets : Meets tree link other) :
    link ∈ tree.links ∧ other ∈ tree.links := by
  obtain ⟨_, _, _, _, _, _, _, _, _, _, is, _, _, _, _, isOther⟩ := meets
  exact ⟨mem_links_shape is, mem_links_shape isOther⟩

/-- There are so few links that without a circle every way from link to link ends. -/
theorem LoopFree.wellFounded (loopFree : LoopFree tree) :
    WellFounded fun other link => Meets tree link other := by
  have strict : IsStrictOrder Place fun other link => Relation.TransGen (Meets tree) link other :=
    { irrefl := loopFree, trans := fun _ _ _ first second => second.trans first }
  have ends : {link | link ∈ tree.links}.WellFoundedOn fun other link =>
      Relation.TransGen (Meets tree) link other := tree.links.finite_toSet.wellFoundedOn
  refine Subrelation.wf (fun meets => ?_) (Set.wellFoundedOn_iff.mp ends)
  exact ⟨.single meets, meets.mem_links.2, meets.mem_links.1⟩

/-- A link that is met is followed over fewer links. -/
theorem Meets.shorter {link other place : Place} {count : Nat} (meets : Meets tree link other)
    (leads : LinkLeads tree count link place) :
    ∃ fewer end', LinkLeads tree fewer other end' ∧ fewer < count := by
  obtain ⟨here, own, target, before, name, after, first, middle, next, rfl, is, parts, along, down,
    rfl, isOther⟩ := meets
  obtain ⟨here', own', target', same, is', inside⟩ := leads
  obtain ⟨rfl, rfl⟩ := List.append_singleton_inj.mp same
  obtain rfl := Shape.link.inj (Option.some.inj (is.symm.trans is'))
  rw [parts] at inside
  obtain ⟨first', second, middle', rfl, along', further⟩ := inside.split
  obtain ⟨rfl, rfl⟩ := along.unique along'
  cases further with
  | up => exact absurd rfl down
  | plain _ noLink => exact absurd isOther (noLink _)
  | @link inner outer _ _ _ _ _ _ _ isLink inside further =>
      exact ⟨inner, _, ⟨middle, name, _, rfl, isLink, inside⟩, by omega⟩

/-- Parts lead to a place, if all links that are met do. -/
theorem leads_along {here middle : Place} {before after : List Text} {count : Nat}
    (along : Leads tree count here before middle)
    (met : ∀ front name back count middle, before ++ after = front ++ name :: back →
      Leads tree count here front middle → name ≠ parent →
        ∀ target, tree.shapeAt (middle ++ [name]) = some (.link target) →
          ∃ count place, LinkLeads tree count (middle ++ [name]) place) :
    ∃ count place, Leads tree count here (before ++ after) place := by
  induction after generalizing before middle count with
  | nil => exact ⟨count, middle, by rwa [List.append_nil]⟩
  | cons name rest inductionHypothesis =>
      have step {more : Nat} {next : Place} (further : Leads tree more middle [name] next) :
          ∃ count place, Leads tree count here (before ++ name :: rest) place := by
        have found := inductionHypothesis (along.append further) (by simpa using met)
        simpa using found
      by_cases up : name = parent
      · subst up
        exact step (.up (.done _))
      · cases is : tree.shapeAt (middle ++ [name]) with
        | none => exact step (.plain up (by simp [is]) (.done _))
        | some shape =>
            cases shape with
            | file content => exact step (.plain up (by simp [is]) (.done _))
            | directory => exact step (.plain up (by simp [is]) (.done _))
            | link target =>
                obtain ⟨inner, place, here', name', target', same, is', inside⟩ :=
                  met before name rest count middle rfl along up target is
                obtain ⟨rfl, rfl⟩ := List.append_singleton_inj.mp same
                exact step (.link up is' inside (.done _))

/-- No link leads back to itself exactly if every link leads to a place. -/
theorem loopFree_iff : LoopFree tree ↔ ∀ here name target,
    tree.shapeAt (here ++ [name]) = some (.link target) →
      ∃ count place, LinkLeads tree count (here ++ [name]) place := by
  constructor
  · intro loopFree here name target is
    generalize same : here ++ [name] = link at is ⊢
    induction link using loopFree.wellFounded.induction generalizing here name target with
    | h link inductionHypothesis =>
        subst same
        have start : Leads tree 0 (placeFor here (Path.ofText target)) [] _ := .done _
        obtain ⟨count, place, inside⟩ := leads_along start
          fun front name' back count middle parts along down next isNext =>
            inductionHypothesis _ ⟨here, name, target, front, name', back, count, middle, next, rfl,
              is, parts, along, down, rfl, isNext⟩ _ _ next rfl isNext
        exact ⟨count, place, here, name, target, rfl, is, inside⟩
  · intro leads link circle
    -- The links along a circle would take fewer and fewer further links.
    have fewer {link other : Place} (way : Relation.TransGen (Meets tree) link other) :
        ∀ {count place}, LinkLeads tree count link place →
          ∃ less end', LinkLeads tree less other end' ∧ less < count := by
      intro count place start
      induction way with
      | single meets => exact meets.shorter start
      | tail _ meets inductionHypothesis =>
          obtain ⟨less, end', leads, short⟩ := inductionHypothesis
          obtain ⟨least, last, leads, shorter⟩ := meets.shorter leads
          exact ⟨least, last, leads, by omega⟩
    obtain ⟨next, meets, -⟩ := Relation.TransGen.head'_iff.mp circle
    obtain ⟨here, own, target, _, _, _, _, _, _, rfl, is, -⟩ := meets
    obtain ⟨count, place, start⟩ := leads here own target is
    obtain ⟨less, end', again, short⟩ := fewer circle start
    have same := start.unique again
    omega

/-- Without a circle all parts lead to a place. -/
theorem LoopFree.leads (loopFree : LoopFree tree) (here : Place) (parts : List Text) :
    ∃ count place, Leads tree count here parts place := by
  have start : Leads tree 0 here [] here := .done here
  exact leads_along start fun _ name _ _ middle _ _ _ target is =>
    loopFree_iff.mp loopFree middle name target is

/-- Resolving the target of a link finds a place. -/
def Entry.leadsOn (tree : Entry) (link : Place) : Bool :=
  match tree.at? link with
  | some (.link target) =>
    (canonicalFrom tree (placeFor link.dropLast (Path.ofText target)) (Path.ofText target).parts).isOk
  | _ => true

/-- The test finds that a link leads somewhere just when it does. -/
theorem Entry.leadsOn_iff {here : Place} {name : Text} : tree.leadsOn (here ++ [name]) = true ↔
    ∀ target, tree.shapeAt (here ++ [name]) = some (.link target) →
      ∃ count place, LinkLeads tree count (here ++ [name]) place := by
  rw [leadsOn]
  split
  · rename_i target found
    have is : tree.shapeAt (here ++ [name]) = some (.link target) := by rw [shapeAt, found]; rfl
    rw [List.dropLast_concat]
    constructor
    · intro ends own link
      obtain rfl := Shape.link.inj (Option.some.inj (is.symm.trans link))
      cases resolved : canonicalFrom tree (placeFor here (Path.ofText target))
          (Path.ofText target).parts with
      | error place => simp [resolved, Except.isOk, Except.toBool] at ends
      | ok place =>
          obtain ⟨count, inside⟩ := canonicalFrom_eq_ok.mp resolved
          exact ⟨count, place, here, name, target, rfl, is, inside⟩
    · intro ends
      obtain ⟨count, place, here', name', target', same, link, inside⟩ := ends target is
      obtain ⟨rfl, rfl⟩ := List.append_singleton_inj.mp same
      obtain rfl := Shape.link.inj (Option.some.inj (is.symm.trans link))
      rw [canonicalFrom_eq_ok.mpr ⟨count, inside⟩]
      rfl
  · rename_i noLink
    refine iff_of_true rfl fun target link => ?_
    obtain ⟨entry, found, shape⟩ := Option.map_eq_some_iff.mp link
    cases entry with
    | file content => cases shape
    | link own => exact absurd found (noLink own)
    | directory entries => cases shape

instance : Decidable (LoopFree tree) :=
  decidable_of_iff (∀ link ∈ tree.links, link ≠ [] → tree.leadsOn link = true) <| by
    rw [loopFree_iff]
    constructor
    · intro ends here name target is
      exact Entry.leadsOn_iff.mp (ends _ (mem_links_shape is) (by simp)) target is
    · intro ends link member some
      obtain ⟨here, name, rfl⟩ := (List.eq_nil_or_concat' link).resolve_left some
      exact Entry.leadsOn_iff.mpr (ends here name)

end

end Untranslated.FileTree
