/-
This file proves that a static text stands for the same key in a call and in a language file.
The scan reads the masked text, and the language file is read as it is written.
-/

import Untranslated.Catalog.LanguageFile
import Untranslated.Proofs.Call.Positions
import Untranslated.Proofs.Php.Escapes
import Untranslated.Proofs.Php.StaticNodes
import Untranslated.Proofs.Scan.Calls

namespace Untranslated.Call

open Php (Node Program)
open Php.Literal (value?)

/-- Only calls are call sites. -/
theorem label?_call {source : List Char} {targets : Targets} {aliases : Php.Aliases} {node : Node}
    {name : Text} (told : label? source targets aliases node = .ok (some name)) :
    node.kind.isCall = true := by
  unfold label? at told
  split at told
  case h_5 => cases told
  all_goals
    rename_i kind
    rw [kind]
    rfl

/-- The key of a single argument is the value of its text. -/
theorem resolve_single {source : List Char} {argument text : Node} {key : Text}
    (children : argument.children = [text]) (plain : text.role = .none)
    (static : text.kind.isStatic = true)
    (resolved : resolve source [argument] = .ok (.key key)) :
    value? source text = .ok (some key) := by
  have noName : argumentName? source argument = none := by
    simp [argumentName?, Node.child?, children, plain]
  have named : text.kind.isNamed = true :=
    (Bool.and_eq_true_iff.mp (Php.isStatic_isPart static)).2
  have last : argument.namedChildren.getLast? = some text := by
    simp [Node.namedChildren, children, named]
  have noSpread : (text.kind == .spread) = false := Php.isStatic_ne static rfl
  simp only [resolve, keyArgument?, noName, last, noSpread] at resolved
  obtain ⟨found, told, resolved⟩ := bind_eq_ok.mp resolved
  rw [told]
  cases found with
  | none => cases resolved
  | some found =>
      cases resolved
      rfl

end Untranslated.Call

namespace Untranslated.Scan

open Call (Site Targets siteAt?)
open Php (Program)

/-- A key of a scan is the key of a call in the program. -/
theorem mem_scanProgram {path : Text} {program : Program} {targets : Targets} {scan : FileScan}
    {key : Text} (scanned : scanProgram path program targets = .ok scan)
    (member : key ∈ scan.keys) : ∃ node ∈ program.root.preorder, ∃ site,
      siteAt? program targets program.aliases node = .ok (some site) ∧
        site.resolution program = .ok (.key key) := by
  have told := scanProgram_callsIn path program targets
  rw [scanned] at told
  obtain ⟨calls, all, rfl⟩ := ok_of_toOption told.symm
  obtain ⟨call, inside, keyed⟩ := List.mem_filterMap.mp ((Text.uniqueMember _ _).mp member)
  obtain ⟨results, sites, all⟩ := bind_eq_ok.mp all
  obtain ⟨site, known, told⟩ := mem_mapM all inside
  obtain ⟨node, within, is⟩ := mem_mapM sites (List.reduceOption_mem_iff.mp known)
  refine ⟨node, within, site, is, ?_⟩
  unfold foundCall at told
  cases resolved : site.resolution program with
  | error e =>
      rw [resolved] at told
      cases told
  | ok resolution =>
      rw [resolved] at told
      cases told
      cases resolution with
      | rejected reason argument => cases keyed
      | key found =>
          cases keyed
          rfl

/-- A file of code is scanned as the program that it is read as. -/
theorem scanProgram_of_scanFile {targets : Targets} {directives : List Text}
    {path : FileTree.Path} {text : List Char} {program : Program} {scan : FileScan}
    (parsed : Php.parse text (some path.text) = .ok program)
    (scanned : scanFile targets directives ⟨path, text, .code⟩ = .ok scan) :
    scanProgram path.text program targets = .ok scan := by
  have read : parseFile directives ⟨path, text, .code⟩ = .ok program :=
    congrArg (Except.mapError ScanError.invalidCode) parsed
  rw [scanFile, read] at scanned
  exact mapError_ok scanned

end Untranslated.Scan

namespace Untranslated.Catalog

open Php (IsStatic Token arrayText callText indexAfter mask slice textNode)
open Php.Literal (value?)
open Scan (FileScan SourceFile scanFile)

/-- The key that a scan finds in a call of one argument is the value of the argument. -/
theorem value?_of_scan {source : Php.Source} {parts : Php.StaticText} {name opening : Token}
    (noLead : opening.lead = []) {rest : List Token} {path : Text} {targets : Call.Targets}
    {scan : FileScan} {key : Text}
    (scanned : Scan.scanProgram path
      ⟨source, (Php.callProgram parts).toNode (name :: opening :: rest)⟩ targets = .ok scan)
    (found : key ∈ scan.keys) :
    value? source.masked (textNode parts opening rest) = .ok (some key) := by
  obtain ⟨node, inside, site, is, resolved⟩ := Scan.mem_scanProgram scanned found
  obtain ⟨label, told, rfl⟩ := Call.siteAt?_some is
  obtain rfl := Php.callNode_only _ node inside (Call.label?_call told)
  obtain ⟨argument, only, children⟩ := Php.argumentsOf_callNode parts opening rest name noLead
  rw [Call.Site.resolution, only] at resolved
  exact Call.resolve_single children (Php.place_role _ _ _ _)
    (Php.textNode_kind parts opening rest) resolved

section

variable {text : List Char} {row : List Token}

/-- The static text is alike in the masked text of the call and in the array as it is written. -/
theorem textNode_alike (static : IsStatic text row)
    (written : ∀ token ∈ row,
      slice (mask text) token.start token.stop = slice text token.start token.stop)
    {parts : Php.StaticText} (count : row.length = parts.lexemes.length) (back back' : List Token) :
    Php.Alike (mask (callText text)) (arrayText text)
      (textNode parts ⟨.ofMark "(", [], 8, 9⟩ (row.map (Token.shift 9) ++ back))
      (textNode parts ⟨.ofMark "[", [], 13, 14⟩ (row.map (Token.shift 14) ++ back')) := by
  have twins := Php.twins_within "<?php __(".toList "<?php return [".toList ");".toList
    " => 1];".toList back back' static.inside (Php.maskLength text).symm written
  rw [← Php.mask_callText, count, ← Nat.add_zero parts.lexemes.length] at twins
  exact (parts.spans.place .none 9 14 twins).node

/-- No template text stands between the tokens of the array. -/
theorem arrayTokens_twins (static : IsStatic text row) {parts : Php.StaticText}
    (count : row.length = parts.lexemes.length) {back : List Token} (length : back.length = 5)
    (plain : ∀ token ∈ back, Php.hasMarkup token.lead = false) :
    Php.Twins (arrayText text) (arrayText text) (parts.lexemes.length + (1 + (1 + 3)))
      (row.map (Token.shift 14) ++ back) (row.map (Token.shift 14) ++ back) := by
  have quiet : ∀ token ∈ row.map (Token.shift 14) ++ back, Php.hasMarkup token.lead = false := by
    intro token member
    rcases List.mem_append.mp member with member | member
    · obtain ⟨own, inside, rfl⟩ := List.mem_map.mp member
      exact (Php.hasMarkup_shift 14 own.lead).trans (static.inside own inside).2
    · exact plain token member
  have twins := Php.twins_self (arrayText text) quiet
  rwa [List.length_append, List.length_map, count, length] at twins

/-- If masking changes none of its literals, a static text has the same key in a call and in a
language file. The key of the call is the one key of the file, unless it is made of digits and is
no number, or one that is too long: then the keys of the file cannot be told. -/
theorem codeKeys_static (static : IsStatic text row)
    (written : ∀ token ∈ row,
      slice (mask text) token.start token.stop = slice text token.start token.stop)
    {targets : Call.Targets} {directives : List Text} {path : FileTree.Path} {scan : FileScan}
    (scanned : scanFile targets directives ⟨path, callText text, .code⟩ = .ok scan) {key : Text}
    (found : key ∈ scan.keys) (name : Option Text) :
    codeKeys (arrayText text) name =
      ((indexAfter 0 key).map fun _ => ([key], [])).mapError .inr := by
  obtain ⟨parts, lexemes⟩ := static.parts
  have count : row.length = parts.lexemes.length := by
    simpa using congrArg List.length lexemes
  obtain ⟨back, call⟩ := static.parse_call lexemes (some path.text)
  obtain ⟨back', length, plain, array⟩ := static.parse_array lexemes name
  have inCall := value?_of_scan rfl (Scan.scanProgram_of_scanFile call scanned) found
  have alike := textNode_alike static written count back back'
  have inArray : value? (arrayText text) (textNode parts ⟨.ofMark "[", [], 13, 14⟩
      (row.map (Token.shift 14) ++ back')) = .ok (some key) := alike.value?.symm.trans inCall
  have twins := arrayTokens_twins static count length plain
  have keys : Php.Program.returnedKeys ⟨.ofChars (arrayText text),
      (Php.arrayProgram parts).toNode (⟨Php.returnLexeme, [], 6, 12⟩ ::
        ⟨.ofMark "[", [], 13, 14⟩ :: (row.map (Token.shift 14) ++ back'))⟩ =
          (indexAfter 0 key).map fun _ => some [key] :=
    Php.returnedKeys_arrayProgram rfl rfl twins inArray
  simp only [codeKeys, array, keys]
  cases indexAfter 0 key <;> rfl

end

/-- Literals of every form, in brackets, with points and comments between them. -/
def joined : List Char :=
  ("('a\\'' /* c */ . \"\\u\x7b62\x7d\\n\") .\n" ++
    "<<<'X'\n  c\n  X . (<<<Y\n d\\x65\n Y . b'f') // g\n").toList

/-- The tokens that the reader finds in a text, if it is static. -/
def staticTokens (text : List Char) : List Token :=
  (Php.staticRow? [')'] text.length ⟨[], false, false⟩ [] 0 (mask text)).getD []

/-- The parts of that text. -/
def joinedParts : Php.StaticText :=
  .joined (.joined (.single (.bracketed (.joined (.single (.literal .singleQuoted))
    (.literal .doubleQuoted)))) (.literal .nowdoc))
    (.bracketed (.joined (.single (.literal .heredoc)) (.literal .singleQuoted)))

/-- The literals in a row are one key in a call and in a language file. -/
theorem codeKeys_static_joined :
    IsStatic joined (staticTokens joined) ∧
      (∀ token ∈ staticTokens joined,
        slice (mask joined) token.start token.stop = slice joined token.start token.stop) ∧
      ∃ scan, scanFile .default [] ⟨⟨[], []⟩, callText joined, .code⟩ = .ok scan ∧
        Text.ofString "a'b\ncdef" ∈ scan.keys ∧
        codeKeys (arrayText joined) none = .ok ([Text.ofString "a'b\ncdef"], []) := by
  have static : IsStatic joined (staticTokens joined) :=
    ⟨by decide +kernel, joinedParts, by decide +kernel⟩
  have written : ∀ token ∈ staticTokens joined,
      slice (mask joined) token.start token.stop = slice joined token.start token.stop := by
    decide +kernel
  have index : indexAfter 0 (Text.ofString "a'b\ncdef") = .ok 0 := by decide +kernel
  have keys : (scanFile .default [] ⟨⟨[], []⟩, callText joined, .code⟩).toOption.map (·.keys) =
      some [Text.ofString "a'b\ncdef"] := by decide +kernel
  obtain ⟨scan, scanned, keys⟩ := ok_of_toOption keys
  have found : Text.ofString "a'b\ncdef" ∈ scan.keys := keys ▸ List.mem_singleton_self _
  refine ⟨static, written, scan, scanned, found, ?_⟩
  rw [codeKeys_static static written scanned found none, index]
  rfl

/-- A literal that masking changes, for it reads like the start of a declaration. -/
def declared : List Char := "'<?xml a'".toList

/-- The call has the masked key, and the language file the one that is written. -/
theorem codeKeys_static_declared :
    IsStatic declared (staticTokens declared) ∧
      ∃ scan keys, scanFile .default [] ⟨⟨[], []⟩, callText declared, .code⟩ = .ok scan ∧
        codeKeys (arrayText declared) none = .ok keys ∧
        scan.keys = [Text.ofString "<_xml a"] ∧ keys.1 = [Text.ofString "<?xml a"] := by
  have static : IsStatic declared (staticTokens declared) :=
    ⟨by decide +kernel, .single (.literal .singleQuoted), by decide +kernel⟩
  have masked : (scanFile .default [] ⟨⟨[], []⟩, callText declared, .code⟩).toOption.map
      (·.keys) = some [Text.ofString "<_xml a"] := by decide +kernel
  have written : (codeKeys (arrayText declared) none).toOption.map (·.1) =
      some [Text.ofString "<?xml a"] := by decide +kernel
  obtain ⟨scan, scanned, masked⟩ := ok_of_toOption masked
  obtain ⟨keys, read, written⟩ := ok_of_toOption written
  exact ⟨static, scan, keys, scanned, read, masked, written⟩

end Untranslated.Catalog
