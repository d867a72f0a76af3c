/-
# Tether.Shape.WhereGrammar — the clauses that `ParseWhere` accepts

The parser has no tokens: it searches, tests endings and trims.  On ASCII text it
nevertheless accepts the clauses of a grammar and means what they say
(`parseWhere_grammar`).  Canonical text of predicates is parsed to the predicates; and
a clause that is parsed is derived by `Clause`, which differs from canonical text in
blanks, in the case of keywords and in `<>` for `!=`.

Completeness is proved for columns of any characters that are neither blanks nor
operators, before or after upper-casing (`Plain`).  Cutting the clause needs every
column but the last to keep its length in the upper-cased copy.
-/
import Tether.Shape.SplitAND
import Tether.Shape.SqlClause

namespace Tether.Shape

open Tether.Lib Tether.Lib.GoString Tether.Wal

set_option autoImplicit false

variable {u : Unicode}

/-! ## Canonical text -/

/-- What follows the column. -/
def PredOp.ending : PredOp → List Char
  | .eq => " = ?".toList
  | .ne => " != ?".toList
  | .isNull => " IS NULL".toList
  | .isNotNull => " IS NOT NULL".toList

/-- The operator of a comparison. -/
def PredOp.symbol : PredOp → List Char
  | .eq => "=".toList
  | .ne => "!=".toList
  | .isNull | .isNotNull => []

def fragment (p : Predicate) : List Char := p.column.toList ++ p.op.ending

def canonical (preds : List Predicate) : List Char :=
  conjunction.intercalate (preds.map fragment)

theorem canonical_cons_cons (p q : Predicate) (ps : List Predicate) :
    canonical (p :: q :: ps) = fragment p ++ (conjunction ++ canonical (q :: ps)) := by
  rw [canonical, List.map_cons, List.map_cons, List.intercalate_cons_cons, List.append_assoc]
  rfl

theorem canonical_singleton (p : Predicate) : canonical [p] = fragment p :=
  List.intercalate_singleton

/-- A character of a column that the parser takes for nothing else. -/
structure Plain (u : Unicode) (c : Char) : Prop where
  space : u.isSpace c = false
  upper : u.toUpper c ≠ ' '
  symbol : c ∉ ['!', '<', '=']

/-- The column is as long in the upper-cased copy. -/
def Even (u : Unicode) (p : Predicate) : Prop :=
  (encode (p.column.toList.map u.toUpper)).length = (encode p.column.toList).length

theorem map_toUpper_of_fixed {cs : List Char} (fixed : ∀ c ∈ cs, c.toNat < 128 ∧ c.toUpper = c) :
    cs.map u.toUpper = cs := by
  refine (List.map_congr_left fun c member => ?_).trans (List.map_id' cs)
  rw [u.upper_ascii c (fixed c member).1, (fixed c member).2]

theorem PredOp.ending_upper (op : PredOp) : op.ending.map u.toUpper = op.ending :=
  map_toUpper_of_fixed (forall_mem_of_all (by cases op <;> decide))

theorem conjunction_upper : conjunction.map u.toUpper = conjunction :=
  map_toUpper_of_fixed (forall_mem_of_all (by decide))

theorem PredOp.ending_of_compares {op : PredOp} (compares : op.compares = true) :
    op.ending = [' '] ++ (op.symbol ++ [' ', '?']) := by
  cases op with
  | eq | ne => rfl
  | isNull | isNotNull => cases compares

theorem PredOp.index_ending_none (op : PredOp) :
    (encode op.ending).index (encode conjunction) = none := by
  cases op <;> decide

theorem PredOp.index_ending (op : PredOp) (rest : GoString) :
    (encode op.ending ++ (encode conjunction ++ rest)).index (encode conjunction) =
      some (encode op.ending).length := by
  cases op <;> rfl

theorem space_not_mem_upper {column : List Char} (plain : ∀ c ∈ column, Plain u c) :
    32 ∉ encode (column.map u.toUpper) := by
  rw [show (32 : UInt8) = UInt8.ofNat ' '.toNat from rfl, ascii_mem_encode (by decide),
    List.mem_map]
  rintro ⟨c, member, upper⟩
  exact (plain c member).upper upper

/-- No ` AND ` is found before the one that ends the fragment. -/
theorem index_fragment {p : Predicate} (plain : ∀ c ∈ p.column.toList, Plain u c)
    (rest : GoString) :
    (encode ((fragment p).map u.toUpper) ++ rest).index (encode conjunction) =
      ((encode p.op.ending ++ rest).index (encode conjunction)).map
        (· + (encode (p.column.toList.map u.toUpper)).length) := by
  rw [fragment, List.map_append, PredOp.ending_upper, encode_append, List.append_assoc]
  exact index_append_of_not_mem _ _ (space_not_mem_upper plain)

theorem splitFrom_canonical (done : List Char) (p : Predicate) (ps : List Predicate)
    (plain : ∀ q ∈ p :: ps, ∀ c ∈ q.column.toList, Plain u c)
    (even : ∀ q ∈ (p :: ps).dropLast, Even u q) :
    splitFrom (encode (done ++ canonical (p :: ps))) (encode ((canonical (p :: ps)).map u.toUpper))
        (encode done).length = some ((p :: ps).map fun q => encode (fragment q)) := by
  induction ps generalizing p done with
  | nil =>
      have absent := index_fragment (plain p List.mem_cons_self) []
      rw [List.append_nil, List.append_nil, PredOp.index_ending_none] at absent
      rw [canonical_singleton]
      exact splitFrom_last absent
  | cons q ps ih =>
      have evenHere : Even u p := even p List.mem_cons_self
      have later := ih (done ++ (fragment p ++ conjunction)) q
        (fun r member => plain r (List.mem_cons_of_mem _ member))
        (fun r member => even r (List.mem_cons_of_mem _ member))
      have upper : encode ((canonical (p :: q :: ps)).map u.toUpper) =
          encode ((fragment p).map u.toUpper) ++
            (encode conjunction ++ encode ((canonical (q :: ps)).map u.toUpper)) := by
        rw [canonical_cons_cons, List.map_append, List.map_append, conjunction_upper,
          encode_append, encode_append]
      have sizes : (encode ((fragment p).map u.toUpper)).length = (encode (fragment p)).length := by
        rw [fragment, List.map_append, PredOp.ending_upper, encode_append, encode_append,
          List.length_append, List.length_append, evenHere]
      have found := index_fragment (plain p List.mem_cons_self)
        (encode conjunction ++ encode ((canonical (q :: ps)).map u.toUpper))
      have total : (encode p.op.ending).length + (encode p.column.toList).length =
          (encode (fragment p)).length := by
        rw [fragment, encode_append, List.length_append, Nat.add_comm]
      rw [PredOp.index_ending, Option.map_some, evenHere, total, ← upper] at found
      have conjunctionSize : (encode conjunction).length = 5 := by decide
      have rest : (encode ((canonical (p :: q :: ps)).map u.toUpper)).drop
          ((encode (fragment p)).length + 5) = encode ((canonical (q :: ps)).map u.toUpper) := by
        rw [upper, ← List.append_assoc, ← sizes, ← conjunctionSize, ← List.length_append,
          List.drop_left]
      rw [canonical_cons_cons] at found rest ⊢
      rw [splitFrom_turn found conjunctionSize, rest, later]
      rfl

/-! ## One fragment -/

theorem column_ne_nil {column : List Char} (valid : validateIdent u column = .ok ()) :
    column ≠ [] := by
  rintro rfl
  cases valid

theorem PredOp.ending_last (op : PredOp) :
    ∃ c, op.ending.getLast? = some c ∧ u.isSpace c = false := by
  have blank (c : Char) (ascii : c.toNat < 128)
      (other : decide (c.toNat = 32 ∨ 9 ≤ c.toNat ∧ c.toNat ≤ 13) = false) :
      u.isSpace c = false := (u.space_ascii c ascii).trans other
  cases op with
  | eq | ne => exact ⟨'?', rfl, blank '?' (by decide) (by decide)⟩
  | isNull | isNotNull => exact ⟨'L', rfl, blank 'L' (by decide) (by decide)⟩

/-- Text from a column to an ending is not trimmed. -/
theorem trimmed_column_ending {column : List Char} (middle : List Char) (op : PredOp)
    (valid : validateIdent u column = .ok ()) (plain : ∀ c ∈ column, Plain u c) :
    trimmed u (column ++ (middle ++ op.ending)) = column ++ (middle ++ op.ending) := by
  obtain ⟨last, ends, lastSpace⟩ := op.ending_last (u := u)
  cases column with
  | nil => exact absurd rfl (column_ne_nil valid)
  | cons c column =>
      refine trimmed_eq_self rfl ?_ (plain c List.mem_cons_self).space lastSpace
      rw [List.getLast?_append, List.getLast?_append, ends]
      rfl

theorem rdropWhile_column {column : List Char} (plain : ∀ c ∈ column, Plain u c) :
    column.rdropWhile u.isSpace = column := by
  rw [List.rdropWhile_eq_self_iff]
  intro nonempty
  simp [(plain _ (List.getLast_mem nonempty)).space]

theorem dropWhile_column_append {column : List Char} (plain : ∀ c ∈ column, Plain u c)
    (nonempty : column ≠ []) (rest : List Char) :
    (column ++ rest).dropWhile u.isSpace = column ++ rest := by
  cases column with
  | nil => exact absurd rfl nonempty
  | cons c column =>
      exact List.dropWhile_cons_of_neg (by simp [(plain c List.mem_cons_self).space])

theorem trimmed_column {column : List Char} (plain : ∀ c ∈ column, Plain u c)
    (nonempty : column ≠ []) : trimmed u column = column := by
  have front := dropWhile_column_append plain nonempty []
  rw [List.append_nil] at front
  rw [trimmed, front, rdropWhile_column plain]

theorem isSpace_space : u.isSpace ' ' = true := u.space_ascii ' ' (by decide)

theorem trimmed_column_space {column : List Char} (plain : ∀ c ∈ column, Plain u c)
    (nonempty : column ≠ []) : trimmed u (column ++ [' ']) = column := by
  rw [trimmed, dropWhile_column_append plain nonempty,
    List.rdropWhile_concat_pos _ _ _ isSpace_space, rdropWhile_column plain]

theorem trimmed_placeholder : trimmed u [' ', '?'] = ['?'] := by
  have other : u.isSpace '?' = false := u.space_ascii '?' (by decide)
  simp [trimmed, List.dropWhile, List.rdropWhile, isSpace_space, other]

theorem hasSuffix_isNotNull (op : PredOp) (s : GoString) :
    (s ++ encode op.ending).hasSuffix (ofString " IS NOT NULL") = decide (op = .isNotNull) := by
  rw [hasSuffix, List.isSuffixOf, List.reverse_append]
  cases op <;> rfl

theorem hasSuffix_isNull (op : PredOp) (s : GoString) :
    (s ++ encode op.ending).hasSuffix (ofString " IS NULL") = decide (op = .isNull) := by
  rw [hasSuffix, List.isSuffixOf, List.reverse_append]
  cases op <;> rfl

/-- Everything before the ending of a null test is the column. -/
theorem parseNullTest_fragment {p : Predicate} (plain : ∀ c ∈ p.column.toList, Plain u c)
    (valid : validateIdent u p.column.toList = .ok ()) :
    parseNullTest u (encode (fragment p)) (encode p.op.ending).length p.op =
      .ok { column := p.column, op := p.op } := by
  rw [parseNullTest, fragment, encode_append, slice_front _ rfl]
  dsimp only
  rw [trimSpace_encode, trimmed_column plain (column_ne_nil valid), columnOf,
    map_fst_runes_encode, valid, String.ofList_toList]

/-- A comparison whose operator was found between `l` and `r`. -/
theorem parseComparison_eq {l sep r : List Char} {op : PredOp}
    (search : comparisons.findSome? (fun (s, o) =>
        ((encode (l ++ (sep ++ r))).index s).map fun i => (i, s, o)) =
      some ((encode l).length, encode sep, op))
    (valid : validateIdent u (trimmed u l) = .ok ()) (right : trimmed u r = ['?']) :
    parseComparison u (encode (l ++ (sep ++ r))) = .ok (trimmed u l, op) := by
  have left : (encode (l ++ (sep ++ r))).take (encode l).length = encode l := by
    rw [encode_append]
    exact List.take_left
  have rest : (encode (l ++ (sep ++ r))).drop ((encode l).length + (encode sep).length) =
      encode r := by
    rw [encode_append, encode_append, ← List.append_assoc, ← List.length_append]
    exact List.drop_left
  simp only [comparisons] at search
  simp only [parseComparison, search, left, rest, trimSpace_encode, right, columnOf,
    map_fst_runes_encode, valid]
  rfl

theorem parseComparison_fragment {p : Predicate} (plain : ∀ c ∈ p.column.toList, Plain u c)
    (valid : validateIdent u p.column.toList = .ok ()) (compares : p.op.compares = true) :
    parseComparison u (encode (fragment p)) = .ok (p.column.toList, p.op) := by
  have column := trimmed_column_space plain (column_ne_nil valid)
  have skip (c : Char) (ascii : c.toNat < 128) (symbol : c ∈ ['!', '<', '=']) (sep : GoString) :
      (encode (fragment p)).index (UInt8.ofNat c.toNat :: sep) =
        ((encode p.op.ending).index (UInt8.ofNat c.toNat :: sep)).map
          (· + (encode p.column.toList).length) := by
    rw [fragment, encode_append]
    refine index_append_of_not_mem _ _ fun member => ?_
    exact (plain c ((ascii_mem_encode ascii).1 member)).symbol symbol
  have size : (encode (p.column.toList ++ [' '])).length =
      1 + (encode p.column.toList).length := by
    rw [encode_append, List.length_append, Nat.add_comm]
    rfl
  have text : fragment p = (p.column.toList ++ [' ']) ++ (p.op.symbol ++ [' ', '?']) := by
    rw [fragment, List.append_assoc, PredOp.ending_of_compares compares]
  have search : comparisons.findSome? (fun (s, o) =>
      ((encode ((p.column.toList ++ [' ']) ++ (p.op.symbol ++ [' ', '?']))).index s).map
        fun i => (i, s, o)) =
      some ((encode (p.column.toList ++ [' '])).length, encode p.op.symbol, p.op) := by
    simp only [comparisons, List.findSome?_cons]
    rw [← text, size, show ofString "!=" = UInt8.ofNat '!'.toNat :: [61] from rfl,
      show ofString "<>" = UInt8.ofNat '<'.toNat :: [62] from rfl,
      show ofString "=" = UInt8.ofNat '='.toNat :: [] from rfl,
      skip '!' (by decide) (by decide), skip '<' (by decide) (by decide),
      skip '=' (by decide) (by decide)]
    cases op : p.op with
    | eq | ne => rfl
    | isNull | isNotNull =>
        rw [op] at compares
        cases compares
  rw [text, parseComparison_eq search (column.symm ▸ valid) trimmed_placeholder, column]

/-- The canonical text of a predicate is parsed to it. -/
theorem parsePart_fragment {p : Predicate} (plain : ∀ c ∈ p.column.toList, Plain u c)
    (valid : validateIdent u p.column.toList = .ok ())
    (ignored : p.op.compares = false → p.value = .null) {args rest : List Value}
    (given : args = comparands [p] ++ rest) :
    parsePart u (encode (fragment p)) args = .ok (p, rest) := by
  have whole : trimmed u (fragment p) = fragment p := trimmed_column_ending [] p.op valid plain
  have upper : (encode (fragment p)).toUpper u =
      encode (p.column.toList.map u.toUpper) ++ encode p.op.ending := by
    rw [toUpper_encode, fragment, List.map_append, PredOp.ending_upper, encode_append]
  have tested := parseNullTest_fragment plain valid
  simp only [parsePart, trimSpace_encode, whole, upper, hasSuffix_isNotNull, hasSuffix_isNull,
    decide_eq_true_eq]
  obtain ⟨column, op, value⟩ := p
  cases op with
  | isNotNull =>
      obtain rfl : value = .null := ignored rfl
      simp only [if_true, given]
      exact congrArg (Except.map fun p => (p, rest)) tested
  | isNull =>
      obtain rfl : value = .null := ignored rfl
      simp only [reduceCtorEq, if_false, if_true, given]
      exact congrArg (Except.map fun p => (p, rest)) tested
  | eq | ne =>
      simp only [reduceCtorEq, if_false, parseComparison_fragment plain valid rfl, given]
      simp [comparands, PredOp.compares]

/-! ## Canonical text is parsed to its predicates -/

/-- Predicates that the parser can return, over columns it can find. -/
structure Writable (u : Unicode) (p : Predicate) : Prop where
  plain : ∀ c ∈ p.column.toList, Plain u c
  valid : validateIdent u p.column.toList = .ok ()
  ignored : p.op.compares = false → p.value = .null

theorem canonical_eq (p : Predicate) (ps : List Predicate) :
    ∃ middle op, canonical (p :: ps) = p.column.toList ++ (middle ++ PredOp.ending op) := by
  induction ps generalizing p with
  | nil => exact ⟨[], p.op, canonical_singleton p⟩
  | cons q ps ih =>
      obtain ⟨middle, op, rest⟩ := ih q
      refine ⟨p.op.ending ++ (conjunction ++ (q.column.toList ++ middle)), op, ?_⟩
      rw [canonical_cons_cons, rest, fragment]
      simp only [List.append_assoc]

theorem comparands_cons (p : Predicate) (ps : List Predicate) :
    comparands (p :: ps) = comparands [p] ++ comparands ps := by
  rw [← List.singleton_append, comparands, List.filter_append, List.map_append]
  rfl

theorem parseParts_fragments {preds : List Predicate} (writable : ∀ p ∈ preds, Writable u p) :
    parseParts u (preds.map fun p => encode (fragment p)) (comparands preds) =
      .ok (preds, []) := by
  induction preds with
  | nil => rfl
  | cons p ps ih =>
      rw [List.forall_mem_cons] at writable
      obtain ⟨here, later⟩ := writable
      have first := parsePart_fragment here.plain here.valid here.ignored
        (comparands_cons p ps)
      rw [List.map_cons, parseParts, first]
      dsimp only
      rw [ih later]
      rfl

/-- **Completeness**: the text of predicates is parsed to them. -/
theorem parseWhere_canonical {preds : List Predicate} (nonempty : preds ≠ [])
    (writable : ∀ p ∈ preds, Writable u p) (even : ∀ p ∈ preds.dropLast, Even u p) :
    parseWhere u (encode (canonical preds)) (comparands preds) = .ok ⟨preds⟩ := by
  cases preds with
  | nil => exact absurd rfl nonempty
  | cons p ps =>
      have here := writable p List.mem_cons_self
      have whole : trimmed u (canonical (p :: ps)) = canonical (p :: ps) := by
        obtain ⟨middle, op, text⟩ := canonical_eq p ps
        rw [text]
        exact trimmed_column_ending middle op here.valid here.plain
      have text : encode (canonical (p :: ps)) ≠ [] := by
        obtain ⟨middle, op, text⟩ := canonical_eq p ps
        intro empty
        rw [show ([] : GoString) = encode [] from rfl, text] at empty
        exact column_ne_nil here.valid (List.append_eq_nil_iff.1 (encode_inj empty)).1
      have split : splitAND u (encode (canonical (p :: ps))) =
          some ((p :: ps).map fun q => encode (fragment q)) := by
        rw [splitAND, toUpper_encode]
        exact splitFrom_canonical [] p ps (fun q member => (writable q member).plain) even
      simp only [parseWhere, trimSpace_encode, whole, if_neg text, split,
        parseParts_fragments writable]

/-! ## The grammar -/

/-- ASCII white space. -/
def Blank (cs : List Char) : Prop := ∀ c ∈ cs, c.toNat = 32 ∨ 9 ≤ c.toNat ∧ c.toNat ≤ 13

/-- The ways to write the operator of a comparison. -/
def PredOp.symbols : PredOp → List (List Char)
  | .eq => ["=".toList]
  | .ne => ["!=".toList, "<>".toList]
  | .isNull | .isNotNull => []

/-- The fragments of a clause, each with its predicate. -/
inductive Fragment : List Char → Predicate → Prop where
  | comparison {a b c d symbol : List Char} {p : Predicate} :
      Blank a → Blank b → Blank c → Blank d → symbol ∈ p.op.symbols →
      Fragment (a ++ (p.column.toList ++ (b ++ (symbol ++ (c ++ ('?' :: d)))))) p
  | nullTest {a b d keyword : List Char} {p : Predicate} :
      Blank a → Blank b → Blank d → p.op.compares = false →
      keyword.map Char.toUpper = p.op.ending → p.value = .null →
      Fragment (a ++ (p.column.toList ++ (b ++ (keyword ++ d)))) p

inductive Clause : List Char → List Predicate → Prop where
  | one {text : List Char} {p : Predicate} : Fragment text p → Clause text [p]
  | and {text sep rest : List Char} {p : Predicate} {ps : List Predicate} :
      Fragment text p → sep.map Char.toUpper = conjunction → Clause rest ps →
      Clause (text ++ (sep ++ rest)) (p :: ps)

theorem Blank.append {cs ds : List Char} (left : Blank cs) (right : Blank ds) :
    Blank (cs ++ ds) := List.forall_mem_append.2 ⟨left, right⟩

theorem Fragment.blanks {text l r : List Char} {p : Predicate} (before : Blank l) (after : Blank r)
    (fragment : Fragment text p) : Fragment (l ++ (text ++ r)) p := by
  cases fragment with
  | @comparison a b c d symbol _ ha hb hc hd spelt =>
      have whole := Fragment.comparison (before.append ha) hb hc (hd.append after) spelt
      simpa only [List.append_assoc, List.cons_append] using whole
  | @nullTest a b d keyword _ ha hb hd tests upper ignored =>
      have whole := Fragment.nullTest (before.append ha) hb (hd.append after) tests upper ignored
      simpa only [List.append_assoc] using whole

theorem Clause.blanks {text l r : List Char} {ps : List Predicate} (before : Blank l)
    (after : Blank r) (clause : Clause text ps) : Clause (l ++ (text ++ r)) ps := by
  induction clause generalizing l with
  | one fragment => exact .one (fragment.blanks before after)
  | @and text sep rest p ps fragment upper _ ih =>
      have none : Blank [] := fun _ member => absurd member List.not_mem_nil
      have whole := Clause.and (fragment.blanks before none) upper (ih none)
      simpa only [List.append_assoc, List.append_nil, List.nil_append] using whole

/-! ## What is parsed is derived -/

theorem toUpper_ascii {c : Char} (ascii : c.toNat < 128) : c.toUpper.toNat < 128 := by
  have all : ∀ n < 128, (Char.ofNat n).toUpper.toNat < 128 := by decide
  rw [← Char.ofNat_toNat c]
  exact all c.toNat ascii

theorem steady_of_ascii {c : Char} (ascii : c.toNat < 128) : Steady u c := by
  rw [Steady, u.upper_ascii c ascii, ← String.length_utf8EncodeChar,
    ← String.length_utf8EncodeChar, utf8EncodeChar_ascii ascii,
    utf8EncodeChar_ascii (toUpper_ascii ascii)]
  rfl

theorem map_toUpper_ascii {cs : List Char} (ascii : ∀ c ∈ cs, c.toNat < 128) :
    cs.map u.toUpper = cs.map Char.toUpper :=
  List.map_congr_left fun c member => u.upper_ascii c (ascii c member)

/-- ASCII text is blanks around what `TrimSpace` keeps. -/
theorem exists_blanks {cs : List Char} (ascii : ∀ c ∈ cs, c.toNat < 128) :
    ∃ l r, Blank l ∧ Blank r ∧ cs = l ++ (trimmed u cs ++ r) := by
  obtain ⟨l, r, whole, before, after⟩ := eq_blank_trimmed_blank u cs
  have blank {ds : List Char} (inside : ds ⊆ cs) (spaces : ∀ c ∈ ds, u.isSpace c) : Blank ds := by
    intro c member
    have space := spaces c member
    rw [u.space_ascii c (ascii c (inside member))] at space
    exact of_decide_eq_true space
  refine ⟨l, r, blank ?_ before, blank ?_ after, whole⟩
  · intro c member
    rw [whole]
    exact List.mem_append_left _ member
  · intro c member
    rw [whole]
    exact List.mem_append_right _ (List.mem_append_right _ member)

/-- A null test was cut where its keyword begins. -/
theorem fragment_of_nullTest {text : List Char} (ascii : ∀ c ∈ text, c.toNat < 128) {op : PredOp}
    {name : GoString} (tests : op.compares = false)
    (ends : ((encode text).toUpper u).hasSuffix (encode op.ending) = true)
    (cut : (encode text).slice 0 ((encode text).length - (encode op.ending).length) = some name) :
    Fragment text { column := String.ofList (columnOf (name.trimSpace u)), op } := by
  have asciiEnding : ∀ c ∈ op.ending, c.toNat < 128 :=
    forall_mem_of_all (by cases op <;> decide)
  have nonempty : op.ending ≠ [] := by
    cases op <;> decide
  obtain ⟨before, whole⟩ := List.isSuffixOf_iff_suffix.1 ends
  rw [toUpper_encode, ← List.append_nil (encode op.ending)] at whole
  obtain ⟨ps, qs, copy, -, rest⟩ := encode_eq_append nonempty asciiEnding whole.symm
  obtain rfl : qs = [] := encode_inj rest
  rw [List.append_nil] at copy
  obtain ⟨front, keyword, rfl, -, upper⟩ := List.map_eq_append_iff.1 copy
  rw [List.forall_mem_append] at ascii
  have size : (encode keyword).length = (encode op.ending).length := by
    rw [← upper, length_encode_toUpper fun c member => steady_of_ascii (ascii.2 c member)]
  rw [encode_append, slice_front _ size] at cut
  obtain rfl := Option.some.inj cut
  obtain ⟨a, b, blankA, blankB, split⟩ := exists_blanks (u := u) ascii.1
  rw [map_toUpper_ascii ascii.2] at upper
  rw [trimSpace_encode, columnOf, map_fst_runes_encode]
  have derived := Fragment.nullTest (d := [])
    (p := { column := String.ofList (trimmed u front), op }) blankA blankB
    (fun _ member => absurd member List.not_mem_nil) tests upper rfl
  rwa [String.toList_ofList, List.append_nil, ← List.append_assoc (trimmed u front),
    ← List.append_assoc a, ← split] at derived

theorem PredOp.symbols_ascii (op : PredOp) :
    ∀ symbol ∈ op.symbols, symbol ≠ [] ∧ ∀ c ∈ symbol, c.toNat < 128 := by
  have all : ∀ symbol ∈ op.symbols, symbol ≠ [] ∧
      symbol.all (fun c => decide (c.toNat < 128)) = true := by
    cases op <;> decide
  exact fun symbol spelt => (all symbol spelt).imp_right forall_mem_of_all

/-- A comparison was cut at its operator. -/
theorem fragment_of_comparison {text symbol : List Char} (ascii : ∀ c ∈ text, c.toNat < 128)
    {op : PredOp} {i : Nat} (spelt : symbol ∈ op.symbols)
    (found : (encode text).index (encode symbol) = some i)
    (right : GoString.trimSpace u ((encode text).drop (i + (encode symbol).length)) =
      .ofString "?") (value : Value) :
    Fragment text
      { column := String.ofList (columnOf (GoString.trimSpace u ((encode text).take i))),
        op, value } := by
  obtain ⟨nonempty, asciiSymbol⟩ := op.symbols_ascii symbol spelt
  obtain ⟨x, y, rfl, left, rest⟩ := encode_eq_append nonempty asciiSymbol (eq_of_index found)
  rw [List.forall_mem_append, List.forall_mem_append] at ascii
  rw [← rest, trimSpace_encode] at right
  have placeholder : trimmed u y = ['?'] := encode_inj right
  obtain ⟨a, b, blankA, blankB, splitX⟩ := exists_blanks (u := u) ascii.1
  obtain ⟨c, d, blankC, blankD, splitY⟩ := exists_blanks (u := u) ascii.2.2
  rw [← left, trimSpace_encode, columnOf, map_fst_runes_encode]
  have derived := Fragment.comparison
    (p := { column := String.ofList (trimmed u x), op, value }) blankA blankB blankC blankD spelt
  rw [placeholder] at splitY
  rwa [String.toList_ofList, ← List.singleton_append, ← splitY,
    ← List.append_assoc (trimmed u x), ← List.append_assoc a, ← splitX] at derived

theorem ending_of_mem_nullTests {suffix : GoString} {op : PredOp}
    (kind : (suffix, op) ∈ nullTests) : suffix = encode op.ending := by
  simp only [nullTests, List.mem_cons, Prod.mk.injEq, List.not_mem_nil, or_false] at kind
  rcases kind with ⟨rfl, rfl⟩ | ⟨rfl, rfl⟩ <;> rfl

theorem symbol_of_mem_comparisons {sep : GoString} {op : PredOp}
    (kind : (sep, op) ∈ comparisons) : ∃ symbol ∈ op.symbols, sep = encode symbol := by
  simp only [comparisons, List.mem_cons, Prod.mk.injEq, List.not_mem_nil, or_false] at kind
  rcases kind with ⟨rfl, rfl⟩ | ⟨rfl, rfl⟩ | ⟨rfl, rfl⟩
  · exact ⟨"!=".toList, List.mem_cons_self, rfl⟩
  · exact ⟨"<>".toList, List.mem_cons_of_mem _ List.mem_cons_self, rfl⟩
  · exact ⟨"=".toList, List.mem_cons_self, rfl⟩

theorem ParsedPart.fragment {text : List Char} (ascii : ∀ c ∈ text, c.toNat < 128)
    {args rest : List Value} {p : Predicate} (parsed : ParsedPart u (encode text) args p rest) :
    Fragment text p := by
  obtain ⟨l, r, before, after, whole⟩ := exists_blanks (u := u) ascii
  have inner : ∀ c ∈ trimmed u text, c.toNat < 128 :=
    fun c member => ascii c ((trimmed_sublist u text).subset member)
  rw [whole]
  refine Fragment.blanks before after ?_
  cases parsed with
  | nullTest kind ends cut _ =>
      have tests := compares_of_mem_nullTests kind
      obtain rfl := ending_of_mem_nullTests kind
      rw [trimSpace_encode] at ends cut
      exact fragment_of_nullTest inner tests ends cut
  | comparison kind found right _ _ =>
      obtain ⟨symbol, spelt, rfl⟩ := symbol_of_mem_comparisons kind
      rw [trimSpace_encode] at found right ⊢
      exact fragment_of_comparison inner spelt found right _

theorem ParsedParts.clause {text : List Char} {parts seps : List (List Char)}
    (cut : Cut u text parts seps) (ascii : ∀ c ∈ text, c.toNat < 128) {args rest : List Value}
    {ps : List Predicate} (parsed : ParsedParts u (parts.map encode) args ps rest) :
    Clause text ps := by
  induction cut generalizing args ps with
  | last text =>
      cases parsed with
      | cons first later =>
          cases later with
          | nil => exact .one (first.fragment ascii)
  | more upper _ ih =>
      rw [List.forall_mem_append, List.forall_mem_append] at ascii
      cases parsed with
      | cons first later =>
          rw [map_toUpper_ascii ascii.2.1] at upper
          exact .and (first.fragment ascii.1) upper (ih ascii.2.2 later)

theorem parseWhere_clause {text : List Char} (ascii : ∀ c ∈ text, c.toNat < 128)
    {args : List Value} {f : Filter} (parsed : parseWhere u (encode text) args = .ok f) :
    Clause text f.preds := by
  have inner : ∀ c ∈ trimmed u text, c.toNat < 128 :=
    fun c member => ascii c ((trimmed_sublist u text).subset member)
  obtain ⟨parts, split, all⟩ := parseWhere_parts parsed
  obtain ⟨parts', seps, cut, split'⟩ :=
    splitAND_cut (u := u) fun c member => steady_of_ascii (inner c member)
  rw [trimSpace_encode, split'] at split
  cases split
  obtain ⟨l, r, before, after, whole⟩ := exists_blanks (u := u) ascii
  rw [whole]
  exact (all.clause cut inner).blanks before after

/-! ## ASCII columns -/

/-- The characters of an identifier. -/
theorem ident_of_valid {name : List Char} (valid : validateIdent u name = .ok ()) :
    ∀ c ∈ name, u.isLetter c = true ∨ c = '_' ∨ u.isDigit c = true := by
  intro c member
  rw [validateIdent] at valid
  split_ifs at valid with empty all
  obtain ⟨i, index, rfl⟩ := List.mem_iff_getElem.1 member
  have checked := List.all_eq_true.1 all (name[i], i) (List.mk_mem_zipIdx_iff_getElem?.2 (by simp))
  simp only [Bool.or_eq_true, Bool.and_eq_true, beq_iff_eq] at checked
  rcases checked with (letter | underscore) | digit
  · exact Or.inl letter
  · exact Or.inr (Or.inl underscore)
  · exact Or.inr (Or.inr digit.2)

theorem plain_of_ascii {c : Char} (ascii : c.toNat < 128)
    (ident : u.isLetter c = true ∨ c = '_' ∨ u.isDigit c = true) : Plain u c := by
  have all : ∀ n < 128, (Char.ofNat n).isAlpha = true ∨ Char.ofNat n = '_' ∨
      (Char.ofNat n).isDigit = true →
      ¬ ((Char.ofNat n).toNat = 32 ∨ 9 ≤ (Char.ofNat n).toNat ∧ (Char.ofNat n).toNat ≤ 13) ∧
        (Char.ofNat n).toUpper ≠ ' ' ∧ Char.ofNat n ∉ ['!', '<', '='] := by
    decide
  have here := all c.toNat ascii
  rw [Char.ofNat_toNat] at here
  rw [u.letter_ascii c ascii, u.digit_ascii c ascii] at ident
  obtain ⟨space, upper, symbol⟩ := here ident
  refine ⟨?_, ?_, symbol⟩
  · rw [u.space_ascii c ascii]
    exact decide_eq_false space
  · rw [u.upper_ascii c ascii]
    exact upper

/-- **`ParseWhere` accepts the grammar and means what it says**, on ASCII text. -/
theorem parseWhere_grammar (u : Unicode) :
    (∀ preds : List Predicate, preds ≠ [] →
      (∀ p ∈ preds, (∀ c ∈ p.column.toList, c.toNat < 128) ∧
        validateIdent u p.column.toList = .ok () ∧
        (p.op.compares = false → p.value = .null)) →
      parseWhere u (encode (canonical preds)) (comparands preds) = .ok ⟨preds⟩) ∧
    ∀ (clause : GoString) (args : List Value) (f : Filter), (∀ b ∈ clause, b.toNat < 128) →
      parseWhere u clause args = .ok f →
      (∃ text, clause = encode text ∧ Clause text f.preds) ∧
        (∀ p ∈ f.preds, validateIdent u p.column.toList = .ok ()) ∧
        comparands f.preds = args := by
  constructor
  · intro preds nonempty columns
    refine parseWhere_canonical nonempty (fun p member => ?_) (fun p member => ?_)
    · obtain ⟨ascii, valid, ignored⟩ := columns p member
      exact ⟨fun c inside => plain_of_ascii (ascii c inside) (ident_of_valid valid c inside),
        valid, ignored⟩
    · obtain ⟨ascii, -, -⟩ := columns p (List.mem_of_mem_dropLast member)
      exact length_encode_toUpper fun c inside => steady_of_ascii (ascii c inside)
  · intro clause args f ascii parsed
    obtain ⟨text, rfl, chars⟩ := exists_encode_of_ascii ascii
    exact ⟨⟨text, rfl, parseWhere_clause chars parsed⟩, (parseWhere_ok parsed).2,
      parseWhere_comparands parsed⟩

namespace Keywords

/-- Columns named like keywords. -/
def preds : List Predicate :=
  [⟨"and", .ne, .string "x"⟩, ⟨"null", .isNull, .null⟩]

/-- `and != ? AND null IS NULL`, with other blanks, case and operator. -/
def loose : GoString := .ofString " and<>?\t AnD null  is NULL "

theorem parseWhere_grammar_keywords :
    parseWhere .ascii (encode (canonical preds)) [.string "x"] = .ok ⟨preds⟩ ∧
      parseWhere .ascii loose [.string "x"] = .ok ⟨preds⟩ ∧
      ∃ text, loose = encode text ∧ Clause text preds := by
  have parsed : parseWhere .ascii loose [.string "x"] = .ok ⟨preds⟩ := by
    decide +kernel
  have columns : ∀ p ∈ preds, (∀ c ∈ p.column.toList, c.toNat < 128) ∧
      validateIdent .ascii p.column.toList = .ok () ∧
      (p.op.compares = false → p.value = .null) := by
    rw [preds, List.forall_mem_cons, List.forall_mem_singleton]
    exact ⟨⟨forall_mem_of_all (by decide), by decide +kernel, by decide⟩,
      forall_mem_of_all (by decide), by decide +kernel, by decide⟩
  obtain ⟨complete, sound⟩ := parseWhere_grammar .ascii
  exact ⟨complete preds (by decide) columns, parsed,
    (sound loose _ _ (forall_mem_of_all (by decide +kernel)) parsed).1⟩

end Keywords

end Tether.Shape
