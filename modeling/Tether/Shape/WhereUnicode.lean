/-
# Tether.Shape.WhereUnicode — clauses with letters beyond ASCII

`validateIdent` allows any Unicode letter, and some letters change their width when
they are upper-cased.  `splitAND` then cuts at positions of another text.  What comes of it
depends on the text before each separator only, and is exact (`parseWhere_unicode`).  A
clause of two comparisons is parsed to its two columns when and only when the first one
keeps its length; otherwise the first fragment lacks its placeholder, or the second one lacks
the beginning of its column, which can still be an identifier.
-/
import Tether.Shape.WhereGrammar

namespace Tether.Shape

open Tether.Lib Tether.Lib.GoString Tether.Wal

set_option autoImplicit false

variable {u : Unicode}

/-- What the tables of package `unicode` say about the characters of a separator, about
blanks and about the replacement character. -/
structure Sane (u : Unicode) : Prop where
  upper_conjunction : ∀ c, u.toUpper c ∈ conjunction → c.toNat < 128
  letter_space : ∀ c, u.isLetter c = true → u.isSpace c = false
  digit_space : ∀ c, u.isDigit c = true → u.isSpace c = false
  letter_error : u.isLetter runeError = false
  digit_error : u.isDigit runeError = false

theorem Sane.upper_space (sane : Sane u) (c : Char) (upper : u.toUpper c = ' ') : c = ' ' := by
  have ascii : c.toNat < 128 := sane.upper_conjunction c (by rw [upper]; decide)
  have all : ∀ n < 128, (Char.ofNat n).toUpper = ' ' → Char.ofNat n = ' ' := by decide
  have here := all c.toNat ascii
  rw [Char.ofNat_toNat, ← u.upper_ascii c ascii] at here
  exact here upper

/-- A separator has five bytes. -/
theorem Sane.length_encode_sep (sane : Sane u) (sep : List Char)
    (upper : sep.map u.toUpper = conjunction) : (encode sep).length = 5 := by
  have ascii : ∀ c ∈ sep, c.toNat < 128 := fun c member =>
    sane.upper_conjunction c (upper ▸ List.mem_map_of_mem member)
  rw [← length_encode_toUpper fun c member => steady_of_ascii (ascii c member), upper,
    length_encode_conjunction]

/-! ## Identifiers -/

theorem not_mem_ident {name : List Char} (valid : validateIdent u name = .ok ()) {c : Char}
    (ascii : c.toNat < 128) (other : c.isAlpha = false ∧ c ≠ '_' ∧ c.isDigit = false) :
    c ∉ name := by
  intro member
  obtain ⟨letter, underscore, digit⟩ := other
  have ident := ident_of_valid valid c member
  rw [u.letter_ascii c ascii, u.digit_ascii c ascii, letter, digit] at ident
  simp [underscore] at ident

theorem plain_of_sane (sane : Sane u) {name : List Char} (valid : validateIdent u name = .ok ()) :
    ∀ c ∈ name, Plain u c := by
  intro c member
  have space : u.isSpace c = false := by
    rcases ident_of_valid valid c member with letter | rfl | digit
    · exact sane.letter_space c letter
    · exact (u.space_ascii '_' (by decide)).trans (by decide)
    · exact sane.digit_space c digit
  refine ⟨space, fun upper => ?_, fun symbol => ?_⟩
  · rw [sane.upper_space c upper, isSpace_space] at space
    cases space
  · have ascii : ∀ d ∈ ['!', '<', '='], d.toNat < 128 ∧ d.isAlpha = false ∧ d ≠ '_' ∧
        d.isDigit = false := forall_mem_of_all (by decide)
    exact not_mem_ident valid (ascii c symbol).1 (ascii c symbol).2 member

theorem error_not_mem (sane : Sane u) {name : List Char} (valid : validateIdent u name = .ok ()) :
    runeError ∉ name := by
  intro member
  rcases ident_of_valid valid runeError member with letter | underscore | digit
  · rw [sane.letter_error] at letter
    cases letter
  · exact absurd underscore (by decide)
  · rw [sane.digit_error] at digit
    cases digit

/-! ## Two comparisons -/

/-- A parsed comparison has a placeholder, and its column is among its bytes. -/
theorem ParsedPart.bytes {part : GoString} {args rest : List Value} {p : Predicate}
    (parsed : ParsedPart u part args p rest) (compares : p.op.compares = true) :
    63 ∈ part ∧ ∃ name : GoString, name.Sublist part ∧ columnOf name = p.column.toList := by
  cases parsed with
  | nullTest kind =>
      rw [compares_of_mem_nullTests kind] at compares
      cases compares
  | @comparison i sep op value rest kind found right valid given =>
      have whole := trimSpace_sublist u part
      constructor
      · have kept := (trimSpace_sublist u _).trans
          ((List.drop_sublist (i + sep.length) _).trans whole)
        rw [right] at kept
        exact kept.subset List.mem_cons_self
      · exact ⟨_, (trimSpace_sublist u _).trans ((List.take_sublist _ _).trans whole),
          (String.toList_ofList ..).symm⟩

/-- The second fragment cannot have lost a byte of its column. -/
theorem not_sublist_of_lost {name tail : GoString} (nonempty : name ≠ [])
    (apart : ∀ b ∈ name, b ∉ tail) : ¬ name.Sublist (name.tail ++ tail) := by
  intro inside
  have counted := inside.countP_le (p := fun b => !tail.contains b)
  have all : name.countP (fun b => !tail.contains b) = name.length := by
    rw [List.countP_eq_length]
    intro b member
    simpa using apart b member
  have none : tail.countP (fun b => !tail.contains b) = 0 := by
    rw [List.countP_eq_zero]
    intro b member
    simpa using member
  have bound := List.countP_le_length (p := fun b => !tail.contains b) (l := name.tail)
  have positive := List.length_pos_of_ne_nil nonempty
  rw [List.countP_append, all, none] at counted
  rw [List.length_tail] at bound
  omega

/-- Where `splitAND` cuts the text of two comparisons. -/
theorem splitAND_two {p q : Predicate} (plainP : ∀ c ∈ p.column.toList, Plain u c)
    (plainQ : ∀ c ∈ q.column.toList, Plain u c) {parts : List GoString}
    (split : splitAND u (encode (canonical [p, q])) = some parts) :
    parts =
      [(encode (canonical [p, q])).take
          ((encode p.op.ending).length + (encode (p.column.toList.map u.toUpper)).length),
        (encode (canonical [p, q])).drop
          ((encode p.op.ending).length + (encode (p.column.toList.map u.toUpper)).length + 5)] := by
  have upper : encode ((canonical [p, q]).map u.toUpper) =
      encode ((fragment p).map u.toUpper) ++
        (encode conjunction ++ encode ((fragment q).map u.toUpper)) := by
    rw [canonical_cons_cons, canonical_singleton, List.map_append, List.map_append,
      conjunction_upper, encode_append, encode_append]
  have found := index_fragment plainP (encode conjunction ++ encode ((fragment q).map u.toUpper))
  rw [PredOp.index_ending, Option.map_some, ← upper] at found
  have absent := index_fragment plainQ []
  rw [List.append_nil, List.append_nil, PredOp.index_ending_none] at absent
  have size : (encode p.op.ending).length + (encode (p.column.toList.map u.toUpper)).length + 5 =
      (encode ((fragment p).map u.toUpper) ++ encode conjunction).length := by
    rw [fragment, List.map_append, PredOp.ending_upper, encode_append, List.length_append,
      List.length_append, show (encode conjunction).length = 5 by decide]
    omega
  have rest : (encode ((canonical [p, q]).map u.toUpper)).drop
      ((encode p.op.ending).length + (encode (p.column.toList.map u.toUpper)).length + 5) =
      encode ((fragment q).map u.toUpper) := by
    rw [upper, ← List.append_assoc, size, List.drop_left]
  rw [splitAND, toUpper_encode, splitFrom_of_some found, rest, splitFrom_of_none absent] at split
  obtain ⟨first, cut, later⟩ := Option.bind_eq_some_iff.1 split
  obtain ⟨others, last, rfl⟩ := Option.map_eq_some_iff.1 later
  obtain ⟨second, cut', rfl⟩ := Option.map_eq_some_iff.1 last
  rw [← Int.natCast_add, Nat.zero_add] at cut
  rw [Nat.zero_add] at cut'
  rw [eq_of_slice cut, eq_of_slice cut', List.drop_zero, Nat.sub_zero, ← List.length_drop,
    List.take_length]

theorem not_mem_encode_ident {name : List Char} (valid : validateIdent u name = .ok ()) :
    ∀ b ∈ ofString " = ?", b ∉ encode name := by
  have ascii : ∀ d ∈ " = ?".toList, d.toNat < 128 ∧ d.isAlpha = false ∧ d ≠ '_' ∧
      d.isDigit = false := forall_mem_of_all (by decide)
  intro b symbol member
  rw [ofString_eq_encode, mem_encode] at symbol
  obtain ⟨c, inside, byte⟩ := symbol
  obtain ⟨small, other⟩ := ascii c inside
  rw [utf8EncodeChar_ascii small, List.mem_singleton] at byte
  exact not_mem_ident valid small other ((ascii_mem_encode small).1 (byte ▸ member))

/-- A comparison that ends too early has no placeholder. -/
theorem placeholder_lost {name : List Char} (valid : validateIdent u name = .ok ())
    {rest : GoString} {n : Nat} (early : n ≤ (encode name).length + 3) :
    63 ∉ (encode name ++ (ofString " = " ++ rest)).take n := by
  intro member
  have front : (encode name ++ (ofString " = " ++ rest)).take ((encode name).length + 3) =
      encode name ++ ofString " = " := by
    have size : (encode name ++ ofString " = ").length = (encode name).length + 3 := by
      rw [List.length_append, show (ofString " = ").length = 3 by decide]
    rw [← List.append_assoc, ← size, List.take_left]
  have inside := List.take_subset_take_left _ early member
  rw [front] at inside
  rcases List.mem_append.1 inside with column | operator
  · exact not_mem_encode_ident valid 63 (by decide) column
  · exact absurd operator (by decide)

/-- A comparison that begins too late has not all of its column. -/
theorem column_lost {name : List Char} (valid : validateIdent u name = .ok ())
    {front : GoString} {n : Nat} (late : front.length < n) :
    ¬ (encode name).Sublist ((front ++ (encode name ++ ofString " = ?")).drop n) := by
  intro inside
  have nonempty : encode name ≠ [] := fun empty => column_ne_nil valid (encode_inj empty)
  have back : (front ++ (encode name ++ ofString " = ?")).drop (front.length + 1) =
      (encode name).tail ++ ofString " = ?" := by
    rw [← List.drop_drop, List.drop_left, List.drop_one, List.tail_append_of_ne_nil nonempty]
  have kept := inside.trans (List.drop_sublist_drop_left _ late)
  rw [back] at kept
  exact not_sublist_of_lost nonempty
    (fun b member symbol => not_mem_encode_ident valid b symbol member) kept

/-- The text of two comparisons is parsed to them only if the first column keeps its
length. -/
theorem even_of_parsed (sane : Sane u) {p q : Predicate} (equalP : p.op = .eq)
    (equalQ : q.op = .eq) (validP : validateIdent u p.column.toList = .ok ())
    (validQ : validateIdent u q.column.toList = .ok ()) {args : List Value}
    (parsed : parseWhere u (encode (canonical [p, q])) args = .ok ⟨[p, q]⟩) : Even u p := by
  have plainP := plain_of_sane sane validP
  have plainQ := plain_of_sane sane validQ
  have whole : trimmed u (canonical [p, q]) = canonical [p, q] := by
    obtain ⟨middle, op, text⟩ := canonical_eq p [q]
    rw [text]
    exact trimmed_column_ending middle op validP plainP
  have text : encode (canonical [p, q]) = encode p.column.toList ++ (ofString " = " ++
      (ofString "? AND " ++ (encode q.column.toList ++ ofString " = ?"))) := by
    rw [canonical_cons_cons, canonical_singleton, fragment, fragment, equalP, equalQ]
    simp only [encode_append, List.append_assoc]
    rfl
  obtain ⟨parts, split, all⟩ := parseWhere_parts parsed
  rw [trimSpace_encode, whole] at split
  obtain rfl := splitAND_two plainP plainQ split
  rw [equalP, show (encode PredOp.eq.ending).length = 4 by decide, text] at all
  cases all with
  | cons first later =>
  cases later with
  | cons second _ =>
  rcases Nat.lt_trichotomy (encode (p.column.toList.map u.toUpper)).length
    (encode p.column.toList).length with shorter | same | longer
  · have placeholder := (first.bytes (by rw [equalP]; rfl)).1
    exact absurd placeholder (placeholder_lost validP (by omega))
  · exact same
  · obtain ⟨name, inside, column⟩ := (second.bytes (by rw [equalQ]; rfl)).2
    have clean : runeError ∉ name.runes.map Prod.fst := by
      rw [show name.runes.map Prod.fst = q.column.toList from column]
      exact error_not_mem sane validQ
    rw [← encode_runes name clean, show name.runes.map Prod.fst = q.column.toList from column,
      ← List.append_assoc, ← List.append_assoc] at inside
    have size : (encode p.column.toList ++ (ofString " = " ++ ofString "? AND ")).length =
        (encode p.column.toList).length + 9 := List.length_append
    refine absurd inside (column_lost validQ ?_)
    simp only [List.length_append] at size ⊢
    omega

/-- **What a clause with any letters comes to**, by the texts before its separators.  The
fragments can be rejoined exactly if the clause has a separator wherever the copy has one;
the clause is cut at its own separators exactly if the text before each keeps its length;
`ParseWhere` panics exactly if one of them grows by more than what follows.  Of two
comparisons both columns are found exactly if the first keeps its length. -/
theorem parseWhere_unicode (u : Unicode) (sane : Sane u) :
    (∀ clause : String,
      (Rejoins u (ofString clause) ↔ ∀ before ∈ befores u clause.toList,
        IsSeparator u (five (ofString clause) (upperSize u before))) ∧
      (splitAND u (ofString clause) = cutAt (ofString clause) 0
          ((befores u clause.toList).map fun before => (encode before).length) ↔
        ∀ before ∈ befores u clause.toList, upperSize u before = (encode before).length) ∧
      ∀ args, parseWhere u (ofString clause) args = .error .panics ↔
        ∃ before ∈ befores u (trimmed u clause.toList),
          (encode (trimmed u clause.toList)).length < upperSize u before + 5) ∧
    ∀ (c₁ c₂ : String) (v₁ v₂ : Value), validateIdent u c₁.toList = .ok () →
      validateIdent u c₂.toList = .ok () →
      (parseWhere u (ofString (c₁ ++ " = ? AND " ++ c₂ ++ " = ?")) [v₁, v₂] =
          .ok ⟨[⟨c₁, .eq, v₁⟩, ⟨c₂, .eq, v₂⟩]⟩ ↔
        (GoString.toUpper u (ofString c₁)).length = (ofString c₁).length) := by
  constructor
  · intro clause
    exact ⟨rejoins_iff clause.toList, splitAND_own_iff sane.length_encode_sep clause.toList,
      parseWhere_panics_iff clause.toList⟩
  · intro c₁ c₂ v₁ v₂ valid₁ valid₂
    have text : ofString (c₁ ++ " = ? AND " ++ c₂ ++ " = ?") =
        encode (canonical [⟨c₁, .eq, v₁⟩, ⟨c₂, .eq, v₂⟩]) := by
      rw [ofString_eq_encode, canonical_cons_cons, canonical_singleton, fragment, fragment]
      simp only [String.toList_append, List.append_assoc]
      rfl
    rw [text, ofString_eq_encode, toUpper_encode]
    constructor
    · intro parsed
      have even : Even u ⟨c₁, .eq, v₁⟩ := even_of_parsed sane rfl rfl valid₁ valid₂ parsed
      exact even
    · intro (even : Even u ⟨c₁, .eq, v₁⟩)
      refine parseWhere_canonical (by simp) ?_ (List.forall_mem_singleton.2 even)
      simp only [List.forall_mem_cons, List.not_mem_nil, IsEmpty.forall_iff, implies_true,
        and_true]
      exact ⟨⟨plain_of_sane sane valid₁, valid₁, fun compares => by cases compares⟩,
        plain_of_sane sane valid₂, valid₂, fun compares => by cases compares⟩

namespace Turned

def isLetter (c : Char) : Bool := c.isAlpha || c == 'ɐ' || c == 'Ɐ'

def toUpper (c : Char) : Char := if c = 'ɐ' then 'Ɐ' else c.toUpper

theorem isLetter_ascii (c : Char) (ascii : c.toNat < 128) : isLetter c = c.isAlpha := by
  have lower : c ≠ 'ɐ' := by
    rintro rfl
    exact absurd ascii (by decide)
  have upper : c ≠ 'Ɐ' := by
    rintro rfl
    exact absurd ascii (by decide)
  rw [isLetter, beq_false_of_ne lower, beq_false_of_ne upper, Bool.or_false, Bool.or_false]

theorem toUpper_eq (c : Char) (ascii : c.toNat < 128) : toUpper c = c.toUpper := by
  refine if_neg ?_
  rintro rfl
  exact absurd ascii (by decide)

/-- ASCII and one letter more: `ɐ` has two bytes, its upper case `Ɐ` has three. -/
def tables : Unicode :=
  { Unicode.ascii with
    isLetter := isLetter
    toUpper := toUpper
    letter_ascii := isLetter_ascii
    upper_ascii := toUpper_eq }

theorem not_space {c : Char} (ident : tables.isLetter c = true ∨ tables.isDigit c = true) :
    tables.isSpace c = false := by
  have all : ∀ n < 33, ¬ (tables.isLetter (Char.ofNat n) = true ∨
      tables.isDigit (Char.ofNat n) = true) := by decide
  refine decide_eq_false fun space => ?_
  have here := all c.toNat (by omega)
  rw [Char.ofNat_toNat] at here
  exact here ident

theorem sane : Sane tables where
  upper_conjunction c upper := by
    by_contra wide
    have high : ¬ c.val ≤ 'z'.val := fun low => wide (Nat.lt_of_le_of_lt low (by decide))
    have fixed : c.toUpper = c := dif_neg fun range => high range.2
    have small : ∀ d ∈ conjunction, d.toNat < 128 := forall_mem_of_all (by decide)
    change (if c = 'ɐ' then 'Ɐ' else c.toUpper) ∈ conjunction at upper
    rw [fixed] at upper
    split_ifs at upper
    · exact absurd upper (by decide)
    · exact wide (small c upper)
  letter_space _ letter := not_space (Or.inl letter)
  digit_space _ digit := not_space (Or.inr digit)
  letter_error := by decide
  digit_error := by decide

/-- `ɐ` is followed by a column that loses its first letter; six of them, by one that is
not there any more. -/
theorem parseWhere_loses_column :
    validateIdent tables "ɐ".toList = .ok () ∧ validateIdent tables "xid".toList = .ok () ∧
      parseWhere tables (ofString "ɐ = ? AND xid = ?") [.int64 1, .int64 2] =
        .ok ⟨[⟨"ɐ", .eq, .int64 1⟩, ⟨"id", .eq, .int64 2⟩]⟩ ∧
      splitAND tables (ofString "ɐ = ? AND xid = ?") =
        some [ofString "ɐ = ? ", ofString "id = ?"] ∧
      validateIdent tables "ɐɐɐɐɐɐ".toList = .ok () ∧ validateIdent tables "b".toList = .ok () ∧
      parseWhere tables (ofString "ɐɐɐɐɐɐ = ? AND b = ?") [.int64 1, .int64 2] =
        .error .panics := by
  decide +kernel

/-- `ɐ` does no harm after the last separator. -/
theorem parseWhere_unicode_turned :
    Rejoins tables (ofString "id = ? and ɐ = ?") ∧ Rejoins tables (ofString "ɐ = ?") ∧
      (∀ args, parseWhere tables (ofString "ɐɐɐɐɐɐ = ?") args ≠ .error .panics) ∧
      parseWhere tables (ofString ("id" ++ " = ? AND " ++ "ɐ" ++ " = ?")) [.int64 1, .int64 2] =
        .ok ⟨[⟨"id", .eq, .int64 1⟩, ⟨"ɐ", .eq, .int64 2⟩]⟩ := by
  obtain ⟨clauses, two⟩ := parseWhere_unicode tables sane
  refine ⟨(clauses _).1.2 (by decide +kernel), (clauses _).1.2 (by decide +kernel),
    fun args panics => ?_, (two "id" "ɐ" _ _ (by decide +kernel) (by decide +kernel)).2
      (by decide +kernel)⟩
  exact absurd (((clauses _).2.2 args).1 panics) (by decide +kernel)

end Turned

end Tether.Shape
