/-
This file defines texts as sequences of code points.
A decoded escape may produce a lone surrogate, which `Char` cannot hold.
-/

namespace Untranslated

/-- A code point is a number below `0x110000`. Surrogates are code points. -/
structure CodePoint where
  value : Nat
  inRange : value < 0x110000
deriving DecidableEq

namespace CodePoint

def ofChar (c : Char) : CodePoint :=
  ⟨c.toNat, by
    have valid := c.valid
    simp only [UInt32.isValidChar, Nat.isValidChar] at valid
    change c.val.toNat < 0x110000
    omega⟩

/-- The result is absent beyond the last code point. -/
def ofNat? (n : Nat) : Option CodePoint :=
  if inRange : n < 0x110000 then some ⟨n, inRange⟩ else none

/-- A byte is the code point of the same number. -/
def ofByte (n : Nat) : CodePoint :=
  ⟨n % 256, by omega⟩

def isSurrogate (c : CodePoint) : Bool :=
  0xD800 ≤ c.value && c.value ≤ 0xDFFF

/-- The result is absent for a surrogate. -/
def toChar? (c : CodePoint) : Option Char :=
  if valid : c.value.isValidChar then some (Char.ofNatAux c.value valid) else none

def is (c : CodePoint) (char : Char) : Bool := c.value == char.toNat

/-- Different characters are different code points. -/
theorem ofCharInjective {c d : Char} (same : ofChar c = ofChar d) : c = d := by
  have equal : c.toNat = d.toNat := congrArg CodePoint.value same
  exact Char.toNat_inj.mp equal

end CodePoint

/-- A text is a sequence of code points. -/
abbrev Text := List CodePoint

namespace Text

def ofChars (cs : List Char) : Text := cs.map CodePoint.ofChar

def ofString (s : String) : Text := ofChars s.toList

instance : Coe String Text := ⟨ofString⟩

/-- Texts are ordered code point by code point. A proper beginning comes first. -/
def le : Text → Text → Bool
  | [], _ => true
  | _ :: _, [] => false
  | a :: s, b :: t => a.value < b.value || (a.value == b.value && le s t)

def sort (texts : List Text) : List Text := texts.mergeSort le

/-- Only the first occurrence of each value stays. -/
def unique {A : Type} [DecidableEq A] : List A → List A
  | [] => []
  | a :: rest => a :: (unique rest).filter (· ≠ a)

def ofChar (c : Char) : Text := [CodePoint.ofChar c]

def ofNat (n : Nat) : Text := ofString (toString n)

def ofInt (n : Int) : Text := ofString (toString n)

/-- The texts with a separator between each two of them. -/
def join (separator : Text) : List Text → Text
  | [] => []
  | [last] => last
  | first :: rest => first ++ separator ++ join separator rest

/-- The pieces between the places where a code point satisfies the test. -/
def splitWhere (cut : CodePoint → Bool) : Text → List Text
  | [] => [[]]
  | c :: rest =>
    if cut c then [] :: splitWhere cut rest
    else
      match splitWhere cut rest with
      | [] => [[c]]
      | piece :: pieces => (c :: piece) :: pieces

def splitAtChar (cut : Char) : Text → List Text := splitWhere (· == CodePoint.ofChar cut)

def trimStart (drop : CodePoint → Bool) (t : Text) : Text := t.dropWhile drop

def trimEnd (drop : CodePoint → Bool) (t : Text) : Text := (t.reverse.dropWhile drop).reverse

def trim (drop : CodePoint → Bool) (t : Text) : Text := trimEnd drop (trimStart drop t)

def startsWith (start t : Text) : Bool := start.isPrefixOf t

def endsWith (ending t : Text) : Bool := ending.isSuffixOf t

/-- The two sides of the first occurrence of the separator. -/
def splitOnce? (separator : Text) : Text → Option (Text × Text)
  | [] => if separator.isEmpty then some ([], []) else none
  | c :: rest =>
    if separator.isPrefixOf (c :: rest) then some ([], (c :: rest).drop separator.length)
    else (splitOnce? separator rest).map fun (before, after) => (c :: before, after)

/-- The same values stay. -/
theorem uniqueMember {A : Type} [DecidableEq A] (a : A) (values : List A) :
    a ∈ unique values ↔ a ∈ values := by
  induction values with
  | nil => simp [unique]
  | cons b rest inductionHypothesis =>
      simp only [unique, List.mem_cons, List.mem_filter, inductionHypothesis, decide_eq_true_eq]
      by_cases same : a = b <;> simp [same]

/-- Every value stays once. -/
theorem uniqueNodup {A : Type} [DecidableEq A] (values : List A) : (unique values).Nodup := by
  induction values with
  | nil => simp [unique]
  | cons b rest inductionHypothesis =>
      simp only [unique, List.nodup_cons, List.mem_filter]
      exact ⟨by simp, inductionHypothesis.filter _⟩

/-- Sorting keeps the texts. -/
theorem sortMember (t : Text) (texts : List Text) : t ∈ sort texts ↔ t ∈ texts :=
  List.mem_mergeSort

end Text

end Untranslated
