/-
This file proves which argument of a call is its key and which keys are literal.
-/

import Untranslated.Proofs.Call.Comments
import Untranslated.Proofs.Call.Failures
import Untranslated.Proofs.Php.Denotation

namespace Untranslated.Call

open Php
open Php.Literal (OversizedLiteral value?)

/-- An argument ends in its value, which is not the name of its parameter. -/
def Valued (argument : Node) : Prop :=
  ∃ value, argument.namedChildren.getLast? = some value ∧ value.role = .none

/-- An argument that is placed in a tree ends in its value. -/
theorem valued_place {children : List Child} (formed : Grammar.Formed (.branch .argument children))
    (role : Role) (offset : Nat) (tokens : List Token) :
    Valued ((Tree.branch .argument children).place role offset tokens).node := by
  cases formed with
  | branch fits inside =>
  obtain ⟨named, before, value, rfl, -, -, isNamed⟩ := fits
  obtain ⟨front, offset', tokens', row⟩ :=
    place_last .argument (named ++ before) .none value role offset tokens
  refine ⟨_, ?_, place_role value .none offset' tokens'⟩
  rw [Node.namedChildren, row]
  simp [List.filter_append, place_kind, isNamed]

/-- The arguments of a file that is parsed have values. -/
theorem parse_valued {text : List Char} {path : Option Text} {program : Program}
    (parsed : parse text path = .ok program) :
    ∀ argument ∈ program.root.preorder, argument.kind = .argument → Valued argument := by
  obtain ⟨tree, reads, rfl⟩ := parse_eq_ok.mp parsed
  obtain ⟨formed, isProgram⟩ := read_formed reads
  intro argument inside is
  rcases toNode_standsFor formed _ argument inside with rfl | stands
  · rw [toNode_kind, isProgram] at is
    cases is
  · obtain ⟨children, role, offset, tokens, formed, rfl⟩ := standsFor_argument stands is
    exact valued_place formed role offset tokens

section

variable {source : List Char} {argument : Node} {arguments : List Node}

/-- The name of an argument is the text of the child that has this role. -/
theorem argumentName?_valued (source : List Char) (valued : Valued argument) :
    argumentName? source argument = (argument.child? .name).map (·.text source) := by
  obtain ⟨value, last, role⟩ := valued
  unfold argumentName?
  cases argument.child? .name with
  | none => rfl
  | some name =>
      simp [last, role]

/-- An argument is for a parameter that it names. -/
def IsFor (source : List Char) (parameter : Text) (argument : Node) : Prop :=
  ∃ name, argument.child? .name = some name ∧ name.text source = parameter

/-- A first argument without a name is the key. Otherwise the key is the first argument that names
it, wherever it stands. -/
inductive Binds (source : List Char) : List Node → Node → Prop where
  | positional {first : Node} {others : List Node} (unnamed : first.child? .name = none) :
      Binds source (first :: others) first
  | named {first argument : Node} {others before after : List Node}
      (named : first.child? .name ≠ none) (row : first :: others = before ++ argument :: after)
      (isKey : IsFor source keyParameter argument)
      (notBefore : ∀ earlier ∈ before, ¬IsFor source keyParameter earlier) :
      Binds source (first :: others) argument

/-- An argument names the key just when it is for the parameter of the key. -/
theorem argumentName?_eq_key (valued : Valued argument) :
    (argumentName? source argument == some keyParameter) = true ↔
      IsFor source keyParameter argument := by
  rw [beq_iff_eq, argumentName?_valued source valued, Option.map_eq_some_iff]
  exact Iff.rfl

/-- The first argument that names the key. -/
theorem findKey_eq_some (valued : ∀ argument ∈ arguments, Valued argument) :
    arguments.find? (fun argument => argumentName? source argument == some keyParameter) =
        some argument ↔
      ∃ before after, arguments = before ++ argument :: after ∧
        IsFor source keyParameter argument ∧
        ∀ earlier ∈ before, ¬IsFor source keyParameter earlier := by
  rw [List.find?_eq_some_iff_append]
  constructor
  · rintro ⟨isKey, before, after, rfl, notBefore⟩
    refine ⟨before, after, rfl, (argumentName?_eq_key (valued _ (by simp))).mp isKey, ?_⟩
    intro earlier member wrong
    have named := (argumentName?_eq_key (valued earlier (by simp [member]))).mpr wrong
    simpa [named] using notBefore earlier member
  · rintro ⟨before, after, rfl, isKey, notBefore⟩
    refine ⟨(argumentName?_eq_key (valued _ (by simp))).mpr isKey, before, after, rfl, ?_⟩
    intro earlier member
    rw [Bool.not_eq_true', Bool.eq_false_iff]
    exact fun named => notBefore earlier member
      ((argumentName?_eq_key (valued earlier (by simp [member]))).mp named)

/-- The argument for the key is the one that the rules bind to it. -/
theorem keyArgument?_eq_some (valued : ∀ argument ∈ arguments, Valued argument) :
    keyArgument? source arguments = some argument ↔ Binds source arguments argument := by
  cases arguments with
  | nil =>
      constructor
      · nofun
      · nofun
  | cons first others =>
      have name := argumentName?_valued source (valued first List.mem_cons_self)
      unfold keyArgument?
      cases named : first.child? .name with
      | none =>
          rw [named] at name
          simp only [name, Option.map_none, Option.some.injEq]
          constructor
          · rintro rfl
            exact .positional named
          · rintro (_ | ⟨wrong, -, -, -⟩)
            · rfl
            · exact absurd named wrong
      | some word =>
          rw [named] at name
          simp only [name, Option.map_some]
          rw [findKey_eq_some valued]
          constructor
          · rintro ⟨before, after, row, isKey, notBefore⟩
            exact .named (by simp [named]) row isKey notBefore
          · rintro (unnamed | ⟨-, row, isKey, notBefore⟩)
            · rw [named] at unnamed
              cases unnamed
            · exact ⟨_, _, row, isKey, notBefore⟩

/-- There is no argument for the key just when the rules bind none. -/
theorem keyArgument?_eq_none (valued : ∀ argument ∈ arguments, Valued argument) :
    keyArgument? source arguments = none ↔ ∀ argument, ¬Binds source arguments argument := by
  simp only [← keyArgument?_eq_some valued, Option.eq_none_iff_forall_ne_some, ne_eq]

/-- What becomes of the key of a call by the rules of the language. -/
inductive Resolves (source : List Char) (arguments : List Node) : Resolution → Prop where
  | missing (unbound : ∀ argument, ¬Binds source arguments argument) :
      Resolves source arguments (.rejected .missingArgument [])
  | literal {argument value : Node} {key : Text} (bound : Binds source arguments argument)
      (last : argument.namedChildren.getLast? = some value) (static : Denotes source value key) :
      Resolves source arguments (.key key)
  | dynamic {argument value : Node} (bound : Binds source arguments argument)
      (last : argument.namedChildren.getLast? = some value)
      (dynamic : ∀ key, ¬Denotes source value key) :
      Resolves source arguments (.rejected .nonStringArgument (argument.text source))

/-- A row of arguments as they stand in a file that is parsed. -/
structure Proper (source : List Char) (arguments : List Node) : Prop where
  valued : ∀ argument ∈ arguments, Valued argument
  spelled : ∀ argument ∈ arguments, ∀ inner ∈ argument.preorder, Spelled source inner

/-- Quoted texts in the value of a bound argument are spelled as the language spells them. -/
theorem Proper.value (proper : Proper source arguments) {value : Node}
    (bound : Binds source arguments argument)
    (last : argument.namedChildren.getLast? = some value) :
    ∀ inner ∈ value.preorder, Spelled source inner := by
  have member := keyArgument?_mem ((keyArgument?_eq_some proper.valued).mpr bound)
  exact fun inner within => proper.spelled argument member inner
    (Node.mem_preorder_of_last last within)

/-- A spread is not static. -/
theorem denotes_notSpread {value : Node} {key : Text} (denotes : Denotes source value key) :
    value.kind ≠ .spread := by
  cases denotes with
  | doubleQuoted is | heredoc is => rcases is with is | is <;> simp [is]
  | _ => simp [*]

/-- What a key is resolved to is what the rules of the language say. -/
theorem resolve_sound (proper : Proper source arguments) {resolution : Resolution}
    (resolved : resolve source arguments = .ok resolution) :
    Resolves source arguments resolution := by
  unfold resolve at resolved
  split at resolved
  · next unbound =>
    cases resolved
    exact .missing ((keyArgument?_eq_none proper.valued).mp unbound)
  · next argument found =>
    have bound := (keyArgument?_eq_some proper.valued).mp found
    split at resolved
    · next none =>
      obtain ⟨value, last, -⟩ := proper.valued argument (keyArgument?_mem found)
      rw [none] at last
      cases last
    · next value last =>
      have told (key : Text) : value? source value = .ok (some key) ↔ Denotes source value key :=
        value?_eq_some (proper.value bound last)
      simp only at resolved
      split at resolved
      · next spread =>
        cases resolved
        exact .dynamic bound last fun key denotes =>
          denotes_notSpread denotes (eq_of_beq spread)
      · cases evaluated : value? source value with
        | error e =>
            rw [evaluated] at resolved
            cases resolved
        | ok key =>
            rw [evaluated] at resolved
            cases key with
            | none =>
                cases resolved
                refine .dynamic bound last fun key denotes => ?_
                rw [← told, evaluated] at denotes
                cases denotes
            | some key =>
                cases resolved
                exact .literal bound last ((told key).mp evaluated)

/-- The rules of the language leave one resolution at most. -/
theorem Resolves.unique (proper : Proper source arguments) {first second : Resolution}
    (resolves : Resolves source arguments first) (resolves' : Resolves source arguments second) :
    first = second := by
  have one {argument other : Node} (bound : Binds source arguments argument)
      (bound' : Binds source arguments other) : argument = other := by
    rw [← keyArgument?_eq_some proper.valued] at bound bound'
    exact Option.some.inj (bound.symm.trans bound')
  cases resolves with
  | missing unbound =>
      cases resolves' with
      | missing => rfl
      | literal bound' => exact absurd bound' (unbound _)
      | dynamic bound' => exact absurd bound' (unbound _)
  | literal bound last static =>
      cases resolves' with
      | missing unbound => exact absurd bound (unbound _)
      | literal bound' last' static' =>
          obtain rfl := one bound bound'
          obtain rfl := Option.some.inj (last.symm.trans last')
          rw [← value?_eq_some (proper.value bound last)] at static static'
          rw [Option.some.inj (Except.ok.inj (static.symm.trans static'))]
      | dynamic bound' last' dynamic' =>
          obtain rfl := one bound bound'
          obtain rfl := Option.some.inj (last.symm.trans last')
          exact absurd static (dynamic' _)
  | dynamic bound last dynamic =>
      cases resolves' with
      | missing unbound => exact absurd bound (unbound _)
      | literal bound' last' static' =>
          obtain rfl := one bound bound'
          obtain rfl := Option.some.inj (last.symm.trans last')
          exact absurd static' (dynamic _)
      | dynamic bound' => rw [one bound bound']

/-- The nodes of the arguments have the same texts in two sources. -/
def SameTexts (source other : List Char) (arguments : List Node) : Prop :=
  ∀ argument ∈ arguments, ∀ inner ∈ argument.preorder,
    slice source inner.start inner.stop = slice other inner.start inner.stop

variable {other : List Char}

theorem SameTexts.symm (same : SameTexts source other arguments) :
    SameTexts other source arguments :=
  fun argument member inner within => (same argument member inner within).symm

/-- An argument is for one parameter in either source. -/
theorem SameTexts.isFor (same : SameTexts source other arguments) (member : argument ∈ arguments)
    {parameter : Text} (isFor : IsFor source parameter argument) :
    IsFor other parameter argument := by
  obtain ⟨name, found, text⟩ := isFor
  have inside := Node.mem_preorder_of_found found name.self_mem_preorder
  refine ⟨name, found, ?_⟩
  rwa [Node.text, ← same argument member name inside]

/-- The rules bind one argument in either source. -/
theorem SameTexts.binds (same : SameTexts source other arguments)
    (binds : Binds source arguments argument) : Binds other arguments argument := by
  cases binds with
  | positional unnamed => exact .positional unnamed
  | @named first argument others before after named row isKey notBefore =>
      refine .named named row (same.isFor (by simp [row]) isKey) fun earlier member wrong => ?_
      exact notBefore earlier member (same.symm.isFor (by simp [row, member]) wrong)

/-- The bound argument is one of the arguments. -/
theorem Binds.mem (binds : Binds source arguments argument) : argument ∈ arguments := by
  cases binds with
  | positional => exact List.mem_cons_self
  | named _ row => simp [row]

/-- The resolution depends on the texts of the nodes in the arguments alone. -/
theorem SameTexts.resolves (same : SameTexts source other arguments) {resolution : Resolution}
    (resolves : Resolves source arguments resolution) : Resolves other arguments resolution := by
  have inside {argument value : Node} (bound : Binds source arguments argument)
      (last : argument.namedChildren.getLast? = some value) : ∀ inner ∈ value.preorder,
        slice source inner.start inner.stop = slice other inner.start inner.stop :=
    fun inner within => same argument bound.mem inner (Node.mem_preorder_of_last last within)
  cases resolves with
  | missing unbound => exact .missing fun argument bound => unbound argument (same.symm.binds bound)
  | literal bound last static =>
      exact .literal (same.binds bound) last (static.congr (inside bound last))
  | @dynamic argument value bound last dynamic =>
      have text : argument.text source = argument.text other := by
        rw [Node.text, Node.text, same argument bound.mem argument argument.self_mem_preorder]
      rw [text]
      exact .dynamic (same.binds bound) last fun key static =>
        dynamic key (static.congr fun inner within => (inside bound last inner within).symm)

end

/-- A call whose arguments have no oversized escape has one resolution by the rules of the language.
The rules are followed on the masked text, and on the written text too if no argument is masked. -/
theorem resolution_resolves {text : List Char} {path : Option Text} {program : Program}
    (parsed : parse text path = .ok program) {targets : Targets} {node : Node} {site : Site}
    (inside : node ∈ program.root.preorder)
    (found : siteAt? program targets program.aliases node = .ok (some site))
    (sized : ∀ argument ∈ site.arguments, ∀ literal ∈ argument.preorder, ∀ e,
      ¬OversizedLiteral program.source.masked literal e) :
    ∃ resolution, site.resolution program = .ok resolution ∧
      (∀ other, Resolves program.source.masked site.arguments other ↔ other = resolution) ∧
      (SameTexts program.source.masked program.source.written site.arguments →
        ∀ other, Resolves program.source.written site.arguments other ↔ other = resolution) := by
  have arguments := siteAt?_arguments found
  have within {argument : Node} (member : argument ∈ site.arguments) :
      argument ∈ program.root.preorder ∧ argument.kind = .argument := by
    rw [arguments] at member
    obtain ⟨inside', is⟩ := mem_argumentsOf member
    exact ⟨Node.mem_preorder_trans inside inside', is⟩
  -- The nodes in the arguments are nodes of the program, so it is known how they are spelled.
  have proper : Proper program.source.masked site.arguments :=
    ⟨fun argument member => parse_valued parsed argument (within member).1 (within member).2,
      fun argument member inner inner' =>
        parse_spelled parsed inner (Node.mem_preorder_trans (within member).1 inner')⟩
  cases resolved : site.resolution program with
  | error e =>
      obtain ⟨argument, value, fails⟩ := resolution_eq_error.mp resolved
      obtain ⟨literal, inValue, oversized⟩ := fails.fails.literal
      exact absurd oversized (sized argument (keyArgument?_mem fails.bound) literal
        (Node.mem_preorder_of_last fails.last inValue) e)
  | ok resolution =>
      have sound : Resolves program.source.masked site.arguments resolution :=
        resolve_sound proper resolved
      refine ⟨resolution, rfl, fun other => ?_, fun same other => ?_⟩
      · constructor
        · exact fun resolves => resolves.unique proper sound
        · rintro rfl
          exact sound
      · constructor
        · exact fun resolves => (same.symm.resolves resolves).unique proper sound
        · rintro rfl
          exact same.resolves sound

/-- Whether a node is a call with this key. -/
def hasKey (program : Program) (key : Text) (node : Node) : Bool :=
  match siteAt? program .default program.aliases node with
  | .ok (some site) =>
    match site.resolution program with
    | .ok resolution => resolution = .key key
    | .error _ => false
  | _ => false

/-- A node with this key is a call site that resolves to it. -/
theorem hasKey_site {program : Program} {key : Text} {node : Node}
    (has : hasKey program key node = true) :
    ∃ site, siteAt? program .default program.aliases node = .ok (some site) ∧
      site.resolution program = .ok (.key key) := by
  unfold hasKey at has
  split at has
  · next site found =>
    split at has
    · next resolution resolved =>
      obtain rfl := of_decide_eq_true has
      exact ⟨site, found, resolved⟩
    · cases has
  · cases has

/-- A key that is given by name behind another argument. -/
theorem resolution_resolves_named : ∃ program node site,
    parse "<?php trans_choice(number: 2, key: ('a') . 'b');".toList none = .ok program ∧
      node ∈ program.root.preorder ∧
      siteAt? program .default program.aliases node = .ok (some site) ∧
      site.resolution program = .ok (.key "ab") ∧
      Resolves program.source.written site.arguments (.key "ab") := by
  have checked : (parse "<?php trans_choice(number: 2, key: ('a') . 'b');".toList
      none).toOption.map (fun program =>
        (program.root.preorder.all fun node =>
            node.kind != .doubleQuoted && node.kind != .heredoc) &&
          program.root.preorder.any (hasKey program "ab")) = some true := by decide +kernel
  have unmasked : mask "<?php trans_choice(number: 2, key: ('a') . 'b');".toList =
      "<?php trans_choice(number: 2, key: ('a') . 'b');".toList := by decide
  cases parsed : parse "<?php trans_choice(number: 2, key: ('a') . 'b');".toList none with
  | error e =>
      rw [parsed] at checked
      cases checked
  | ok program =>
      rw [parsed] at checked
      obtain ⟨kinds, calls⟩ := Bool.and_eq_true_iff.mp (Option.some.inj checked)
      obtain ⟨node, inside, has⟩ := List.any_eq_true.mp calls
      obtain ⟨site, found, resolved⟩ := hasKey_site has
      have sized : ∀ argument ∈ site.arguments, ∀ literal ∈ argument.preorder, ∀ e,
          ¬OversizedLiteral program.source.masked literal e := by
        intro argument member literal within e oversized
        rw [siteAt?_arguments found] at member
        have kind := List.all_eq_true.mp kinds literal (Node.mem_preorder_trans inside
          (Node.mem_preorder_trans (mem_argumentsOf member).1 within))
        rcases oversized with ⟨is⟩ | ⟨is⟩ <;> simp [is] at kind
      obtain ⟨resolution, resolved', -, written⟩ := resolution_resolves parsed inside found sized
      obtain rfl := Except.ok.inj (resolved.symm.trans resolved')
      refine ⟨program, node, site, rfl, inside, found, resolved, (written ?_ _).mpr rfl⟩
      obtain ⟨tree, -, rfl⟩ := parse_eq_ok.mp parsed
      intro argument member inner within
      simp only [Source.ofChars, unmasked]

/-- Whether a single argument without a name is a text in single quotes. -/
def isQuoted (source quoted : List Char) (arguments : List Node) : Bool :=
  match arguments with
  | [argument] =>
    (argument.child? .name).isNone && argument.namedChildren.getLast?.any fun value =>
      value.kind == .singleQuoted && slice source value.start value.stop == quoted
  | _ => false

/-- A call with a text in single quotes resolves to its value. -/
theorem isQuoted_resolves {source body : List Char} {arguments : List Node}
    (quoted : isQuoted source ('\'' :: (body ++ ['\''])) arguments = true) :
    Resolves source arguments (.key (Literal.unescapeSingle (Text.ofChars body))) := by
  unfold isQuoted at quoted
  split at quoted
  · next argument =>
    obtain ⟨unnamed, ends⟩ := Bool.and_eq_true_iff.mp quoted
    obtain ⟨value, last, both⟩ := (Option.any_eq_true _ _).mp ends
    obtain ⟨is, text⟩ := Bool.and_eq_true_iff.mp both
    exact .literal (.positional (Option.isNone_iff_eq_none.mp unnamed)) last
      (.singleQuoted (eq_of_beq is) (.inl rfl) (eq_of_beq text))
  · cases quoted

/-- The key of a call whose literal reads like an XML declaration is not the text of the literal. -/
theorem resolution_declared : ∃ program node site,
    parse "<?php __('<?xml a');".toList none = .ok program ∧
      node ∈ program.root.preorder ∧
      siteAt? program .default program.aliases node = .ok (some site) ∧
      Resolves program.source.written site.arguments (.key "<?xml a") ∧
      site.resolution program = .ok (.key "<_xml a") := by
  have checked : (parse "<?php __('<?xml a');".toList none).toOption.map (fun program =>
      program.root.preorder.any fun node => hasKey program "<_xml a" node &&
        isQuoted program.source.written ('\'' :: ("<?xml a".toList ++ ['\'']))
          (argumentsOf node)) = some true := by decide +kernel
  cases parsed : parse "<?php __('<?xml a');".toList none with
  | error e =>
      rw [parsed] at checked
      cases checked
  | ok program =>
      rw [parsed] at checked
      obtain ⟨node, inside, both⟩ := List.any_eq_true.mp (Option.some.inj checked)
      obtain ⟨has, quoted⟩ := Bool.and_eq_true_iff.mp both
      obtain ⟨site, found, resolved⟩ := hasKey_site has
      refine ⟨program, node, site, rfl, inside, found, ?_, resolved⟩
      rw [siteAt?_arguments found]
      exact isQuoted_resolves quoted

end Untranslated.Call
