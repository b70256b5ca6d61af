/-
This file defines the directives of templates and their arguments.
-/

import Untranslated.Text.Word

namespace Untranslated.Blade

open Text (isWordChar)

/-- The directives that every template knows. -/
def standardDirectives : List String := [
  "append", "auth", "aware", "break", "can", "canany", "cannot", "case", "checked", "choice",
  "class", "component", "componentFirst", "continue", "csrf", "dd", "default", "disabled", "dump",
  "each", "else", "elseauth", "elsecan", "elsecanany", "elsecannot", "elseenv", "elseguest",
  "elseif", "elseproduction", "empty", "endauth", "endcan", "endcanany", "endcannot",
  "endcomponent", "endcomponentClass", "endempty", "endenv", "enderror", "endfor", "endforeach",
  "endforelse", "endfragment", "endguest", "endif", "endisset", "endonce", "endprepend",
  "endPrependOnce", "endproduction", "endpush", "endPushOnce", "endsection", "endsession",
  "endslot", "endswitch", "endunless", "endwhile", "env", "error", "extends", "extendsFirst",
  "fragment", "for", "foreach", "forelse", "guest", "hasSection", "hasstack", "if", "include",
  "includeFirst", "includeIf", "includeUnless", "includeWhen", "inject", "isset", "js", "json",
  "lang", "method", "once", "overwrite", "parent", "php", "prepend", "prependOnce", "production",
  "props", "push", "pushIf", "pushOnce", "readonly", "required", "section", "sectionMissing",
  "selected", "session", "show", "slot", "stack", "stop", "style", "switch", "unless", "use",
  "verbatim", "vite", "viteReactRefresh", "while", "yield"]

/-- A project may have directives of its own. -/
def isKnown (extra : List Text) (name : List Char) : Bool :=
  standardDirectives.contains (String.ofList name) || extra.contains (Text.ofChars name)

def isGap (c : Char) : Bool := c == ' ' || c == '\t'

def isQuote (c : Char) : Bool := c == '\'' || c == '"'

/-- The length up to and with the bracket that closes as many brackets as the depth says. Brackets
in quoted text do not count, and a backslash there takes the next character with it. -/
def closingLength? (depth : Nat) : Option Char → List Char → Option Nat
  | _, [] => none
  | some mark, c :: rest =>
    if c == '\\' then
      match rest with
      | [] => none
      | _ :: later => (closingLength? depth (some mark) later).map (· + 2)
    else if c == mark then (closingLength? depth none rest).map (· + 1)
    else (closingLength? depth (some mark) rest).map (· + 1)
  | none, c :: rest =>
    if isQuote c then (closingLength? depth (some c) rest).map (· + 1)
    else if c == '(' then (closingLength? (depth + 1) none rest).map (· + 1)
    else if c == ')' then
      if depth ≤ 1 then some 1 else (closingLength? (depth - 1) none rest).map (· + 1)
    else (closingLength? depth none rest).map (· + 1)

/-- The length of a bracketed text that begins with its bracket. -/
def balancedLength? (cs : List Char) : Option Nat := closingLength? 0 none cs

/-- The arguments of a directive have a gap of blanks and tabs in front. -/
structure Arguments where
  gap : List Char
  inside : List Char
deriving DecidableEq

/-- The gap, the inside and the two brackets. -/
def Arguments.size (arguments : Arguments) : Nat :=
  arguments.gap.length + arguments.inside.length + 2

/-- The arguments that follow a directive. Brackets that are never closed hold none. -/
def arguments? (cs : List Char) : Option Arguments :=
  let gap := cs.takeWhile isGap
  let rest := cs.drop gap.length
  if rest.head? == some '(' then
    (balancedLength? rest).map fun size => ⟨gap, (rest.drop 1).take (size - 2)⟩
  else none

/-- The code of a directive with arguments, after its start and before its end. -/
def codeAround (name : List Char) : List Char × List Char :=
  let call (start : String) : List Char × List Char := (start.toList, ");".toList)
  match String.ofList name with
  | "php" => call "("
  | "lang" => call "echo app('translator')->get("
  | "choice" => call "echo app('translator')->choice("
  | "foreach" | "forelse" => call "foreach ("
  | "for" => call "for ("
  | _ => ("__blade_".toList ++ name ++ ['('], ");".toList)

/-- A stretch of code in a template. -/
def code (inside : List Char) : List Char := "<?php ".toList ++ inside ++ " ?>".toList

def directiveCode (name inside : List Char) : List Char :=
  let (before, after) := codeAround name
  code (before ++ inside ++ after)

end Untranslated.Blade
