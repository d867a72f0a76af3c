/-
# Tether.Lib.GoString — Go strings and the `strings` functions on them

A Go string is a sequence of bytes.  `range` and the functions that look at
characters decode it: a byte that starts no character is the replacement character,
one byte wide.  Slicing is by byte positions and knows nothing of characters; a
position outside the string panics, which is `none` here.

What package `unicode` knows about a character is a parameter (`Unicode`), fixed on
ASCII only.
-/
import Mathlib.Data.List.DropRight

namespace Tether.Lib

set_option autoImplicit false

abbrev GoString := List UInt8

/-- The tables of package `unicode`. -/
structure Unicode where
  isLetter : Char → Bool
  isDigit : Char → Bool
  isSpace : Char → Bool
  toUpper : Char → Char
  letter_ascii : ∀ c : Char, c.toNat < 128 → isLetter c = c.isAlpha
  digit_ascii : ∀ c : Char, c.toNat < 128 → isDigit c = c.isDigit
  space_ascii : ∀ c : Char, c.toNat < 128 →
    isSpace c = decide (c.toNat = 32 ∨ 9 ≤ c.toNat ∧ c.toNat ≤ 13)
  upper_ascii : ∀ c : Char, c.toNat < 128 → toUpper c = c.toUpper

/-- The tables of a world without characters beyond ASCII. -/
def Unicode.ascii : Unicode where
  isLetter := Char.isAlpha
  isDigit := Char.isDigit
  isSpace c := c.toNat = 32 ∨ 9 ≤ c.toNat ∧ c.toNat ≤ 13
  toUpper := Char.toUpper
  letter_ascii _ _ := rfl
  digit_ascii _ _ := rfl
  space_ascii _ _ := rfl
  upper_ascii _ _ := rfl

namespace GoString

def ofString (s : String) : GoString := s.toList.flatMap String.utf8EncodeChar

/-- `utf8.RuneError`. -/
def runeError : Char := '�'

/-- The characters of a string, each with its width in bytes; `skip` bytes still
belong to the character before. -/
def runesFrom : Nat → GoString → List (Char × Nat)
  | _, [] => []
  | skip + 1, _ :: s => runesFrom skip s
  | 0, b :: s =>
      match ((b :: s).take 4).toByteArray.utf8DecodeChar? 0 with
      | some c => (c, c.utf8Size) :: runesFrom (c.utf8Size - 1) s
      | none => (runeError, 1) :: runesFrom 0 s

def runes (s : GoString) : List (Char × Nat) := runesFrom 0 s

def width (rs : List (Char × Nat)) : Nat := rs.foldr (fun r n => r.2 + n) 0

/-- `strings.ToUpper`. -/
def toUpper (u : Unicode) (s : GoString) : GoString :=
  s.runes.flatMap fun r => String.utf8EncodeChar (u.toUpper r.1)

/-- `strings.TrimSpace`. -/
def trimSpace (u : Unicode) (s : GoString) : GoString :=
  let leading := s.runes.takeWhile fun r => u.isSpace r.1
  let inner := (s.runes.dropWhile fun r => u.isSpace r.1).rdropWhile fun r => u.isSpace r.1
  (s.drop (width leading)).take (width inner)

/-- `strings.Index`; `none` is `-1`. -/
def index : GoString → GoString → Option Nat
  | [], sep => if sep = [] then some 0 else none
  | b :: s, sep => if sep.isPrefixOf (b :: s) then some 0 else (index s sep).map (· + 1)

/-- `strings.HasSuffix`. -/
def hasSuffix (s suffix : GoString) : Bool := suffix.isSuffixOf s

/-- `skip` bytes still belong to the match before. -/
def replaceFrom (old new : GoString) : Nat → GoString → GoString
  | _, [] => []
  | skip + 1, _ :: s => replaceFrom old new skip s
  | 0, b :: s =>
      if old.isPrefixOf (b :: s) then new ++ replaceFrom old new (old.length - 1) s
      else b :: replaceFrom old new 0 s

/-- `strings.ReplaceAll`, for an `old` that is not empty. -/
def replaceAll (s old new : GoString) : GoString := replaceFrom old new 0 s

/-- `s[i:j]`. -/
def slice (s : GoString) (i j : Int) : Option GoString :=
  if 0 ≤ i ∧ i ≤ j ∧ j ≤ s.length then some ((s.drop i.toNat).take (j - i).toNat) else none

theorem index_add_le {s sep : GoString} {i : Nat} (found : s.index sep = some i) :
    i + sep.length ≤ s.length := by
  induction s generalizing i with
  | nil =>
      simp only [index] at found
      split at found
      · next empty =>
          cases found
          simp [empty]
      · cases found
  | cons b s ih =>
      simp only [index] at found
      split at found
      · next here =>
          cases found
          simpa using (List.isPrefixOf_iff_prefix.1 here).length_le
      · obtain ⟨j, later, rfl⟩ := Option.map_eq_some_iff.1 found
        have := ih later
        simp only [List.length_cons]
        omega

theorem replaceAll_byte (s : GoString) (b : UInt8) (new : GoString) :
    s.replaceAll [b] new = s.flatMap fun c => if c = b then new else [c] := by
  rw [replaceAll]
  induction s with
  | nil => rfl
  | cons c s ih =>
      have found_iff : [b].isPrefixOf (c :: s) = true ↔ c = b := by
        rw [List.isPrefixOf_iff_prefix, List.cons_prefix_cons]
        exact ⟨fun found => found.1.symm, fun here => ⟨here.symm, List.nil_prefix⟩⟩
      rw [List.flatMap_cons, ← ih, replaceFrom]
      by_cases here : c = b
      · rw [if_pos here, if_pos (found_iff.2 here)]
        rfl
      · rw [if_neg here, if_neg fun found => here (found_iff.1 found)]
        rfl

end GoString

end Tether.Lib
