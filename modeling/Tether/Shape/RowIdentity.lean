/-
# Tether.Shape.RowIdentity — one row, two cache keys

A row reaches a shape on two paths.  `snapshot.Take` delivers the Go values of the
driver; the live path delivers the same values after a round trip through
`change_log`, where every integer becomes a `float64`.  `pkKey` prints the key
columns, and the two texts of an integer agree exactly below `10 ^ 6`: from there
on `fmt.Sprint` of a `float64` uses an exponent.

So the two paths agree on the identity of a row exactly when every integer in its
key is small, and only then does a change find the row `LoadSnapshot` cached.

On one path, too, a key can stand for two rows.  `pkKey` joins the texts with a `|` that
a text may hold itself, so keys of two or more columns identify rows only as long as no
text does (`pkKey_identifies_iff`).
-/
import Tether.Lib.Joined
import Tether.Shape.Isolation
import Tether.Wal.ChangeLog

namespace Tether.Shape

open Tether.Lib Tether.Wal

set_option autoImplicit false

/-! ## One key column -/

/-- The types a primary key column may have here: `int4`, `int8` and `text`. -/
def KeyTyped : Value → Prop
  | .int32 _ | .int64 _ | .string _ => True
  | _ => False

/-- An integer below `10 ^ 6` in magnitude, or a text. -/
def Small : Value → Prop
  | .int32 n => n.toInt.natAbs < 10 ^ 6
  | .int64 n => n.toInt.natAbs < 10 ^ 6
  | _ => True

instance : DecidablePred KeyTyped
  | .int32 _ | .int64 _ | .string _ => .isTrue trivial
  | .null | .bool _ | .int _ | .float64 _ | .bytes _ | .other _ _ => .isFalse id

instance : DecidablePred Small
  | .int32 n => inferInstanceAs (Decidable (n.toInt.natAbs < 10 ^ 6))
  | .int64 n => inferInstanceAs (Decidable (n.toInt.natAbs < 10 ^ 6))
  | .null | .bool _ | .int _ | .float64 _ | .string _ | .bytes _ | .other _ _ => .isTrue trivial

theorem sprint_integer (n : Int64) :
    sprint (.int64 n) = sprint (.float64 (.ofInt64 n)) ↔ n.toInt.natAbs < 10 ^ 6 := by
  simp only [sprint, ← String.toList_inj, String.toList_ofList]
  constructor
  · intro same
    by_contra large
    exact Float64.formatG_ofInt64_ne n (Nat.le_of_not_lt large) n.toInt same.symm
  · intro small
    rw [Float64.formatG_ofInt64_small n small]

theorem sprint_readBack {exotic : Value → Option Json} {v : Value} (typed : KeyTyped v) :
    sprint v = sprint (v.readBack exotic) ↔ Small v := by
  cases v with
  | int32 n =>
      have widened := sprint_integer n.toInt64
      simpa [sprint, Value.readBack, Value.marshal, Json.unmarshal, Small] using widened
  | int64 n => exact sprint_integer n
  | string s => simp [Value.readBack, Value.marshal, Json.unmarshal, Small]
  | _ => cases typed

theorem separator_not_numeric {text : List Char} (numerals : ∀ c ∈ text, Float64.numeric c) :
    '|' ∉ text := fun member => absurd (numerals '|' member) (by decide)

theorem aligned_readBack {exotic : Value → Option Json} {v : Value} (typed : KeyTyped v) :
    Aligned '|' (sprint v).toList (sprint (v.readBack exotic)).toList := by
  have integers : ∀ n : Int64, Aligned '|' n.toInt.repr.toList (Float64.formatG (.ofInt64 n)) :=
    fun n => Or.inr ⟨separator_not_numeric (Float64.numeric_intRepr _),
      separator_not_numeric (Float64.numeric_formatG (x := .ofInt64 n) rfl)⟩
  cases v with
  | int32 n =>
      simpa [sprint, Value.readBack, Value.marshal, Json.unmarshal] using integers n.toInt64
  | int64 n => simpa [sprint, Value.readBack, Value.marshal, Json.unmarshal] using integers n
  | string s => exact Or.inl rfl
  | _ => cases typed

/-! ## Whole keys -/

/-- Every key column is present and has one of the key types. -/
def KeyTypedRow (pk : List String) (row : Row) : Prop :=
  pk ≠ [] ∧ ∀ col ∈ pk, ∃ v ∈ row.lookup col, KeyTyped v

/-- Every integer of the key is below `10 ^ 6` in magnitude. -/
def SmallKey (pk : List String) (row : Row) : Prop :=
  ∀ col ∈ pk, ∀ v ∈ row.lookup col, Small v

instance (pk : List String) (row : Row) : Decidable (KeyTypedRow pk row) :=
  inferInstanceAs (Decidable (pk ≠ [] ∧ ∀ col ∈ pk, ∃ v ∈ row.lookup col, KeyTyped v))

instance (pk : List String) (row : Row) : Decidable (SmallKey pk row) :=
  inferInstanceAs (Decidable (∀ col ∈ pk, ∀ v ∈ row.lookup col, Small v))

variable {exotic : Value → Option Json} {pk : List String} {row other : Row}

theorem pkKey_live_iff (typed : KeyTypedRow pk row)
    (stored : row.viaChangeLog exotic = some other) :
    pkKey pk row = pkKey pk other ↔ SmallKey pk row := by
  have nonempty := typed.1
  have columns : ∀ col ∈ pk, ∃ v, row.lookup col = some v ∧ KeyTyped v := typed.2
  have transported : ∀ col, other.lookup col = (row.lookup col).map (Value.readBack exotic) :=
    Row.lookup_viaChangeLog stored
  have present : ∀ col ∈ pk, col ∈ row := fun col member =>
    let ⟨v, found, _⟩ := columns col member
    Finmap.mem_iff.2 ⟨v, found⟩
  have present' : ∀ col ∈ pk, col ∈ other := fun col member =>
    let ⟨v, found, _⟩ := columns col member
    Finmap.mem_iff.2 ⟨v.readBack exotic, by rw [transported, found]; rfl⟩
  have aligned : List.Forall₂ (Aligned '|')
      (pk.map fun col => (sprint ((row.lookup col).getD .null)).toList)
      (pk.map fun col => (sprint ((other.lookup col).getD .null)).toList) := by
    rw [List.forall₂_map_left_iff, List.forall₂_map_right_iff, List.forall₂_same]
    intro col member
    obtain ⟨v, found, typed⟩ := columns col member
    rw [transported, found]
    exact aligned_readBack typed
  rw [pkKey_of_present nonempty present, pkKey_of_present nonempty present',
    Except.ok.injEq, ← String.toList_inj, String.toList_intercalate, String.toList_intercalate,
    List.map_map, List.map_map]
  constructor
  · intro same col member v found
    have texts := List.map_inj_left.1 (join_inj_of_aligned aligned same) col member
    obtain ⟨v', found', typed⟩ := columns col member
    rw [transported, found'] at texts
    cases found'.symm.trans found
    exact (sprint_readBack typed).1 (String.toList_inj.1 texts)
  · intro small
    refine congrArg _ (List.map_inj_left.2 fun col member => ?_)
    obtain ⟨v, found, typed⟩ := columns col member
    simp only [Function.comp, transported, found, Option.map_some, Option.getD_some]
    rw [(sprint_readBack typed).2 (small col member v found)]

/-! ## The loaded cache -/

variable {C : Type}

/-- A successful `LoadSnapshot` loop passed over its first row or recorded it. -/
theorem Instance.loadRows_cons_ok {r : Row} {rows : List (Option Row)} {inst inst' : Instance C}
    (loaded : inst.loadRows (some r :: rows) = (inst', .ok ())) :
    (inst.filter.match (some r) ≠ true ∧ inst.loadRows rows = (inst', .ok ())) ∨
      ∃ key, pkKey inst.defn.primaryKey r = .ok key ∧
        (inst.record ⟨.insert, key, r⟩).1.loadRows rows = (inst', .ok ()) := by
  simp only [loadRows] at loaded
  split at loaded
  · split at loaded
    · cases loaded
    · next key own =>
        refine .inr ⟨key, own, ?_⟩
        split at loaded
        · cases loaded
        · next recorded =>
            rw [recorded]
            exact loaded
  · next unmatched => exact .inl ⟨unmatched, loaded⟩

/-- Recording the first row keeps what the rest of the loop has to find: the row is
still to come, or it is cached under its key. -/
theorem Instance.held_of_record {r row : Row} {rows : List (Option Row)} {inst : Instance C}
    {key key' : String} (own' : pkKey inst.defn.primaryKey r = .ok key')
    (own : pkKey inst.defn.primaryKey row = .ok key)
    (only : pkKey inst.defn.primaryKey r = .ok key → r = row)
    (held : some row ∈ some r :: rows ∨ inst.cache.lookup key = some row) :
    some row ∈ rows ∨ (inst.record ⟨.insert, key', r⟩).1.cache.lookup key = some row := by
  rw [(inst.record_frame ⟨.insert, key', r⟩).1]
  simp only [Move.cache, KeyMap.lookup_insert_eq]
  split
  · next same =>
      rw [only (same ▸ own')]
      exact Or.inr rfl
  · next apart =>
      refine held.imp_left fun member => ?_
      rcases List.mem_cons.1 member with here | there
      · cases here
        cases own.symm.trans own'
        exact absurd rfl apart
      · exact there

/-- What a successful `LoadSnapshot` loop leaves: rows under their own keys, and
any matching row whose key no other row of the snapshot has. -/
theorem Instance.loadRows_cached {rows : List (Option Row)} {inst inst' : Instance C}
    (keyed : inst.Keyed) (loaded : inst.loadRows rows = (inst', .ok ())) :
    inst'.Keyed ∧ inst'.defn = inst.defn ∧
      ∀ row key, pkKey inst.defn.primaryKey row = .ok key →
        inst.filter.match (some row) = true →
        (∀ r, some r ∈ rows → pkKey inst.defn.primaryKey r = .ok key → r = row) →
        (some row ∈ rows ∨ inst.cache.lookup key = some row) →
        inst'.cache.lookup key = some row := by
  induction rows generalizing inst with
  | nil =>
      cases loaded
      refine ⟨keyed, rfl, fun row key _ _ _ held => ?_⟩
      simpa using held
  | cons entry rows ih =>
      cases entry with
      | none =>
          obtain ⟨keyed', defn, cached⟩ := ih keyed loaded
          refine ⟨keyed', defn, fun row key own matched only held => ?_⟩
          exact cached row key own matched
            (fun r member => only r (List.mem_cons_of_mem _ member)) (by simpa using held)
      | some r =>
          obtain ⟨unmatched, passed⟩ | ⟨key', own', recorded⟩ := loadRows_cons_ok loaded
          · obtain ⟨keyed', defn, cached⟩ := ih keyed passed
            refine ⟨keyed', defn, fun row key own matched only held => ?_⟩
            refine cached row key own matched
              (fun q member => only q (List.mem_cons_of_mem _ member))
              (held.imp_left fun member => ?_)
            rcases List.mem_cons.1 member with here | there
            · cases here
              exact absurd matched unmatched
            · exact there
          · obtain ⟨-, defnEq, filterEq⟩ := inst.record_frame ⟨.insert, key', r⟩
            obtain ⟨keyed', defn, cached⟩ := ih (keyed_insert keyed own') recorded
            rw [defnEq, filterEq] at cached
            refine ⟨keyed', defn.trans defnEq, fun row key own matched only held => ?_⟩
            exact cached row key own matched
              (fun q member => only q (List.mem_cons_of_mem _ member))
              (held_of_record own' own (only r List.mem_cons_self) held)

namespace Accounts

def accounts : Definition Unit :=
  { name := "accounts", schema := "", table := "", primaryKey := [], bind := none }

/-- Every account has an id. -/
def everything : Filter := .notNull "id"

def account (id : Int64) : Row :=
  KeyMap.ofList [("id", .int64 id), ("owner", .string "ann")]

/-- The same account as `change_log` gives it back. -/
def liveAccount (id : Int64) : Row :=
  KeyMap.ofList [("id", .float64 (.ofInt64 id)), ("owner", .string "ann")]

def seeded (id : Int64) : Instance Unit :=
  ((Instance.start accounts everything).loadSnapshot 10 [some (account id)]).1

end Accounts

/-! ## Text keys -/

section TextKeys

/-- Every key column holds a text. -/
def TextKey (pk : List String) (row : Row) : Prop :=
  ∀ col ∈ pk, ∃ text, row.lookup col = some (.string text)

/-- No text of the key holds a separator. -/
def FreeKey (pk : List String) (row : Row) : Prop :=
  ∀ col ∈ pk, ∀ text, row.lookup col = some (.string text) → '|' ∉ text.toList

/-- The characters of a key column. -/
def keyChars (row : Row) (col : String) : List Char :=
  (sprint ((row.lookup col).getD .null)).toList

theorem keyChars_of_lookup {r : Row} {col text : String}
    (found : r.lookup col = some (.string text)) : keyChars r col = text.toList := by
  simp [keyChars, found, sprint]

theorem agree_iff_keyChars {pk : List String} {r r' : Row} (texts : TextKey pk r)
    (texts' : TextKey pk r') :
    (∀ col ∈ pk, r.lookup col = r'.lookup col) ↔ pk.map (keyChars r) = pk.map (keyChars r') := by
  rw [List.map_inj_left]
  refine forall₂_congr fun col member => ?_
  obtain ⟨text, found⟩ := texts col member
  obtain ⟨text', found'⟩ := texts' col member
  rw [keyChars_of_lookup found, keyChars_of_lookup found', found, found', String.toList_inj]
  exact ⟨fun same => Value.string.inj (Option.some.inj same), fun same => by rw [same]⟩

theorem pkKey_eq_iff_join {pk : List String} {r r' : Row} (nonempty : pk ≠ [])
    (texts : TextKey pk r) (texts' : TextKey pk r') :
    pkKey pk r = pkKey pk r' ↔
      ['|'].intercalate (pk.map (keyChars r)) = ['|'].intercalate (pk.map (keyChars r')) := by
  have present {row : Row} (texts : TextKey pk row) : ∀ col ∈ pk, col ∈ row := fun col member =>
    let ⟨text, found⟩ := texts col member
    Finmap.mem_iff.2 ⟨.string text, found⟩
  rw [pkKey_of_present nonempty (present texts), pkKey_of_present nonempty (present texts'),
    Except.ok.injEq, ← String.toList_inj, String.toList_intercalate, String.toList_intercalate,
    List.map_map, List.map_map]
  rfl

/-- The key decides whether two rows agree on the key columns. -/
def KeyDecides (pk : List String) (r r' : Row) : Prop :=
  pkKey pk r = pkKey pk r' ↔ ∀ col ∈ pk, r.lookup col = r'.lookup col

theorem keyDecides_of_inj {pk : List String} {r r' : Row} (texts : TextKey pk r)
    (texts' : TextKey pk r')
    (inj : pk ≠ [] →
      ['|'].intercalate (pk.map (keyChars r)) = ['|'].intercalate (pk.map (keyChars r')) →
      pk.map (keyChars r) = pk.map (keyChars r')) : KeyDecides pk r r' := by
  by_cases empty : pk = []
  · subst empty
    exact iff_of_true rfl fun col absent => absurd absent List.not_mem_nil
  · rw [KeyDecides, pkKey_eq_iff_join empty texts texts', agree_iff_keyChars texts texts']
    exact ⟨inj empty, fun same => by rw [same]⟩

theorem keyDecides_of_free {pk : List String} {r r' : Row} (texts : TextKey pk r)
    (texts' : TextKey pk r') (free : FreeKey pk r) (free' : FreeKey pk r') :
    KeyDecides pk r r' := by
  refine keyDecides_of_inj texts texts' fun nonempty same => ?_
  have parts {row : Row} (texts : TextKey pk row) (free : FreeKey pk row) :
      ∀ p ∈ pk.map (keyChars row), '|' ∉ p := by
    intro p member
    obtain ⟨col, here, rfl⟩ := List.mem_map.1 member
    obtain ⟨text, found⟩ := texts col here
    rw [keyChars_of_lookup found]
    exact free col here text found
  exact join_inj (by simpa using nonempty) (by simpa using nonempty) (parts texts free)
    (parts texts' free') same

theorem keyDecides_of_one_column {pk : List String} (one : ∀ c ∈ pk, ∀ c' ∈ pk, c = c')
    {r r' : Row} (texts : TextKey pk r) (texts' : TextKey pk r') : KeyDecides pk r r' := by
  refine keyDecides_of_inj texts texts' fun nonempty same => ?_
  obtain ⟨first, member⟩ := List.exists_mem_of_ne_nil pk nonempty
  have const (row : Row) : pk.map (keyChars row) = pk.map fun _ => keyChars row first :=
    List.map_congr_left fun col here => by rw [one col here first member]
  rw [const r, const r'] at same ⊢
  rw [join_const_inj nonempty same]

/-- A row whose key texts are runs of separators. -/
def pipes (pk : List String) (n : String → Nat) : Row :=
  KeyMap.ofList (pk.map fun col => (col, .string (String.ofList (List.replicate (n col) '|'))))

theorem lookup_pipes {pk : List String} {col : String} (member : col ∈ pk) (n : String → Nat) :
    (pipes pk n).lookup col = some (.string (String.ofList (List.replicate (n col) '|'))) := by
  rw [pipes]
  induction pk with
  | nil => exact absurd member List.not_mem_nil
  | cons first pk ih =>
      rw [List.map_cons, KeyMap.lookup_ofList_cons]
      split_ifs with here
      · rw [here]
      · exact ih ((List.mem_cons.1 member).resolve_left here)

theorem keyChars_pipes {pk : List String} (n : String → Nat) :
    pk.map (keyChars (pipes pk n)) = pk.map fun col => List.replicate (n col) '|' :=
  List.map_congr_left fun col member => by
    rw [keyChars_of_lookup (lookup_pipes member n), String.toList_ofList]

theorem length_runs (pk : List String) (c : String) (n : Nat) :
    (pk.map fun col => List.replicate (if col = c then n else 0) '|').flatten.length =
      pk.count c * n := by
  induction pk with
  | nil => simp
  | cons first pk ih =>
      rw [List.map_cons, List.flatten_cons, List.length_append, ih, List.length_replicate]
      by_cases here : first = c
      · rw [if_pos here, here, List.count_cons_self, Nat.succ_mul, Nat.add_comm]
      · rw [if_neg here, List.count_cons_of_ne here, Nat.zero_add]

/-- Runs of separators in one column weigh as much as runs in another. -/
theorem pkKey_pipes {pk : List String} {c : String} (c' : String) (member : c ∈ pk) :
    pkKey pk (pipes pk fun col => if col = c then pk.count c' else 0) =
      pkKey pk (pipes pk fun col => if col = c' then pk.count c else 0) := by
  have texts (n : String → Nat) : TextKey pk (pipes pk n) := fun col here =>
    ⟨_, lookup_pipes here n⟩
  rw [pkKey_eq_iff_join (List.ne_nil_of_mem member) (texts _) (texts _), keyChars_pipes,
    keyChars_pipes]
  have separators (n : String → Nat) :
      ∀ p ∈ pk.map fun col => List.replicate (n col) '|', ∀ ch ∈ p, ch = '|' := by
    intro p here ch inside
    obtain ⟨col, -, rfl⟩ := List.mem_map.1 here
    exact (List.mem_replicate.1 inside).2
  refine join_separators (separators _) (separators _) (by simp) ?_
  rw [length_runs, length_runs]
  exact Nat.mul_comm _ _

/-- **Cache keys of text columns.**  A primary key decides between all rows exactly if
all its columns are one; any key decides between rows whose key texts hold no `|`. -/
theorem pkKey_identifies_iff (pk : List String) :
    ((∀ r r' : Row, TextKey pk r → TextKey pk r' → KeyDecides pk r r') ↔
        ∀ c ∈ pk, ∀ c' ∈ pk, c = c') ∧
      ∀ r r' : Row, TextKey pk r → TextKey pk r' → FreeKey pk r → FreeKey pk r' →
        KeyDecides pk r r' := by
  refine ⟨⟨fun decides c member c' member' => ?_, fun one r r' => keyDecides_of_one_column one⟩,
    fun r r' => keyDecides_of_free⟩
  by_contra other
  have texts (n : String → Nat) : TextKey pk (pipes pk n) := fun col here =>
    ⟨_, lookup_pipes here n⟩
  have agree := (decides _ _ (texts _) (texts _)).1 (pkKey_pipes c' member) c member
  rw [lookup_pipes member, lookup_pipes member, if_pos rfl, if_neg other] at agree
  have empty : List.replicate (pk.count c') '|' = [] :=
    String.ofList_injective (Value.string.inj (Option.some.inj agree))
  rw [List.replicate_eq_nil_iff, List.count_eq_zero] at empty
  exact empty member'

end TextKeys

namespace Members

def members : Definition Unit where
  name := "members"
  schema := ""
  table := ""
  primaryKey := ["org", "name"]
  bind := none

/-- Every member is in an organisation. -/
def everyone : Filter := .notNull "org"

def member (org name : String) : Row := KeyMap.ofList [("org", .string org), ("name", .string name)]

def change (op : Op) (old neu : Option Row) : Change where
  schema := "public"
  table := "members"
  op := op
  old := old
  new := neu

/-- Two members, one key: the second insert replaces the first row, and deleting the
first member takes the second one out of the shape. -/
theorem members_share_a_key :
    pkKey ["org", "name"] (member "a|b" "c") = pkKey ["org", "name"] (member "a" "b|c") ∧
      member "a|b" "c" ≠ member "a" "b|c" ∧
      ((Instance.start members everyone).run
        [.apply (change .insert none (some (member "a|b" "c"))),
          .apply (change .insert none (some (member "a" "b|c")))]).materialized =
        {member "a" "b|c"} ∧
      ((Instance.start members everyone).run
        [.apply (change .insert none (some (member "a|b" "c"))),
          .apply (change .insert none (some (member "a" "b|c"))),
          .apply (change .delete (some (member "a|b" "c")) none)]).materialized = 0 := by
  decide +kernel

end Members

end Tether.Shape
