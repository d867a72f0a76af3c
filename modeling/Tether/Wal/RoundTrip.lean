/-
# Tether.Wal.RoundTrip — a change written by `persist` and read back by fan-out

`persist` writes a position with `lsn.String()` and a row with `json.Marshal`;
`fanOutNewChanges` reads them with `ParseLSN` and `decodeJSONMap`.  How a position is
written is left open (`LSNText`).  Texts come back as they were, and so does what a
row does not say: a nil map, an empty one, an absent column and a NULL column stay
four different things.

A JSON number comes back as the nearest `float64`, so an integer survives exactly
when the format holds it (`nearestInt_eq_iff`).  `readBack_faithful_iff` is this
law for a whole change.
-/
import Mathlib.Data.Nat.Digits.Lemmas
import Tether.Wal.ChangeLog

namespace Tether.Wal

open Tether.Lib

set_option autoImplicit false

/-! ## Positions as text -/

/-- The text of a position: `LSN.String` and `ParseLSN` of `pglogrepl`.  The code relies on
one thing only, that a position of 64 bits comes back. -/
class LSNText where
  string : LSN → List Char
  parse : List Char → Option LSN
  parse_string {lsn : LSN} : lsn < 2 ^ 64 → parse (string lsn) = some lsn

namespace Pglogrepl

def hexDigit (d : Nat) : Char := if d < 10 then Char.ofNat (48 + d) else Char.ofNat (55 + d)

/-- `%X` of `fmt.Sprintf`. -/
def formatX (n : Nat) : List Char :=
  if n = 0 then ['0'] else (Nat.digits 16 n).reverse.map hexDigit

def hexValue? (c : Char) : Option Nat :=
  if '0' ≤ c ∧ c ≤ '9' then some (c.toNat - 48)
  else if 'A' ≤ c ∧ c ≤ 'F' then some (c.toNat - 55)
  else if 'a' ≤ c ∧ c ≤ 'f' then some (c.toNat - 87)
  else none

def isHex (c : Char) : Bool := (hexValue? c).isSome

def hexNumber (digits : List Char) : Nat :=
  digits.foldl (fun n c => 16 * n + (hexValue? c).getD 0) 0

/-- `%X` of `fmt.Sscanf` into a `uint64`: the longest run of digits, at least one,
and what follows it. -/
def scanX (cs : List Char) : Option (Nat × List Char) :=
  let digits := cs.takeWhile isHex
  if digits = [] ∨ 2 ^ 64 ≤ hexNumber digits then none
  else some (hexNumber digits, cs.dropWhile isHex)

/-- The upper and the lower 32 bits. -/
def string (lsn : LSN) : List Char :=
  formatX (lsn / 2 ^ 32 % 2 ^ 32) ++ '/' :: formatX (lsn % 2 ^ 32)

/-- `Sscanf` leaves what follows the second number unread. -/
def parse (cs : List Char) : Option LSN :=
  match scanX cs with
  | some (upper, '/' :: rest) =>
      (scanX rest).map fun (lower, _) => (upper * 2 ^ 32 + lower) % 2 ^ 64
  | _ => none

theorem hexValue?_hexDigit {d : Nat} (small : d < 16) : hexValue? (hexDigit d) = some d := by
  interval_cases d <;> decide

theorem formatX_eq (n : Nat) :
    ∃ ds : List Nat, formatX n = ds.map hexDigit ∧ ds ≠ [] ∧ (∀ d ∈ ds, d < 16) ∧
      ds.foldl (fun n d => 16 * n + d) 0 = n := by
  by_cases zero : n = 0
  · exact ⟨[0], by simp [formatX, zero, hexDigit], by simp, by simp, by simp [zero]⟩
  · refine ⟨(Nat.digits 16 n).reverse, if_neg zero, ?_, ?_, ?_⟩
    · simpa using Nat.digits_ne_nil_iff_ne_zero.2 zero
    · intro d member
      exact Nat.digits_lt_base (by decide) (List.mem_reverse.1 member)
    · have digits : (Nat.digits 16 n).foldr (fun d m => d + 16 * m) 0 = n := by
        have whole := Nat.ofDigits_digits 16 n
        rwa [Nat.ofDigits_eq_foldr] at whole
      rw [List.foldl_reverse]
      simpa only [Nat.add_comm] using digits

theorem hexNumber_map (ds : List Nat) (small : ∀ d ∈ ds, d < 16) :
    hexNumber (ds.map hexDigit) = ds.foldl (fun n d => 16 * n + d) 0 := by
  rw [hexNumber, List.foldl_map]
  refine List.foldl_ext _ _ _ fun n d member => ?_
  rw [hexValue?_hexDigit (small d member), Option.getD_some]

/-- What `%X` writes `%X` reads, up to the first character that is no digit. -/
theorem scanX_formatX {n : Nat} (fits : n < 2 ^ 64) {rest : List Char}
    (stop : rest.takeWhile isHex = []) : scanX (formatX n ++ rest) = some (n, rest) := by
  obtain ⟨ds, text, nonempty, small, whole⟩ := formatX_eq n
  have allHex : ∀ c ∈ formatX n, isHex c := by
    intro c member
    rw [text] at member
    obtain ⟨d, digit, rfl⟩ := List.mem_map.1 member
    rw [isHex, hexValue?_hexDigit (small d digit), Option.isSome_some]
  have taken : (formatX n ++ rest).takeWhile isHex = formatX n := by
    rw [List.takeWhile_append_of_pos allHex, stop, List.append_nil]
  have left : (formatX n ++ rest).dropWhile isHex = rest := by
    rw [List.dropWhile_append_of_pos allHex]
    cases rest with
    | nil => rfl
    | cons c cs =>
        have other : isHex c = false := by
          by_contra hex
          simp [List.takeWhile_cons, hex] at stop
        simp [other]
  have number : hexNumber (formatX n) = n := by
    rw [text, hexNumber_map ds small, whole]
  have digits : formatX n ≠ [] := by simpa [text] using nonempty
  simp only [scanX, taken, left, number]
  rw [if_neg (by simp only [digits, false_or]; omega)]

theorem parse_string {lsn : LSN} (fits : lsn < 2 ^ 64) : parse (string lsn) = some lsn := by
  have upper : scanX (string lsn) =
      some (lsn / 2 ^ 32 % 2 ^ 32, '/' :: formatX (lsn % 2 ^ 32)) :=
    scanX_formatX (by omega) (List.takeWhile_cons_of_neg (by decide))
  have lower : scanX (formatX (lsn % 2 ^ 32)) = some (lsn % 2 ^ 32, []) := by
    have read : scanX (formatX (lsn % 2 ^ 32) ++ []) = some (lsn % 2 ^ 32, []) :=
      scanX_formatX (by omega) rfl
    rwa [List.append_nil] at read
  have halves : ∀ n : Nat, n < 2 ^ 64 →
      (n / 2 ^ 32 % 2 ^ 32 * 2 ^ 32 + n % 2 ^ 32) % 2 ^ 64 = n := by omega
  rw [parse, upper]
  simp only [lower, Option.map_some, halves lsn fits]

/-- Two hexadecimal numbers. -/
@[reducible] def hexadecimal : LSNText := ⟨string, parse, parse_string⟩

end Pglogrepl

/-! ## A change read back -/

/-- The conversion `wal.Op(op)`. -/
def Op.ofText (text : String) : Op :=
  if text = "insert" then .insert
  else if text = "update" then .update
  else if text = "delete" then .delete
  else .unknown text

theorem Op.text_ofText (text : String) : (Op.ofText text).text = text := by
  unfold ofText
  split_ifs with insert update delete
  · exact insert.symm
  · exact update.symm
  · exact delete.symm
  · rfl

/-- The change `fanOutNewChanges` makes of one row; `none` when the position does
not parse. -/
def LogEntry.readBack [LSNText] (e : LogEntry) : Option Change :=
  (LSNText.parse (LSNText.string e.lsn)).map fun commitLSN =>
    { schema := e.change.schema
      table := e.change.table
      op := .ofText e.change.op
      relationFingerprint := e.change.fingerprint
      commitLSN
      old := decodeJSONMap e.change.old
      new := decodeJSONMap e.change.new }

/-- NULL, booleans, texts and integers. -/
def Value.plain : Value → Bool
  | .null | .bool _ | .string _ | .int _ | .int32 _ | .int64 _ => true
  | _ => false

/-- The number a Go value stands for, whatever its type. -/
def Value.number? : Value → Option ℚ
  | .int n | .int64 n => some n.toInt
  | .int32 n => some n.toInt
  | .float64 x => x.value?
  | _ => none

/-- One value up to the Go type of a number. -/
def SameValue (v w : Value) : Prop := v = w ∨ ∃ q, v.number? = some q ∧ w.number? = some q

theorem Value.isSome_marshal {exotic : Value → Option Json} {v : Value} (plain : v.plain) :
    (v.marshal exotic).isSome := by
  cases v with
  | null | bool | int | int32 | int64 | string => rfl
  | float64 | bytes | other => cases plain

theorem Value.readBack_eq_null {exotic : Value → Option Json} {v : Value} (plain : v.plain) :
    v.readBack exotic = .null ↔ v = .null := by
  cases v with
  | null | bool | int | int32 | int64 | string => simp [readBack, marshal, Json.unmarshal]
  | float64 | bytes | other => cases plain

/-- An integer comes back as itself exactly when binary64 holds it. -/
theorem sameValue_readBack_integer {exotic : Value → Option Json} {v : Value} {n : Int64}
    (stored : v.marshal exotic = some (.integer n)) (number : v.number? = some (n.toInt : ℚ)) :
    SameValue v (v.readBack exotic) ↔ Representable (n.toInt : ℚ) := by
  have back : v.readBack exotic = .float64 (.ofInt64 n) := by
    rw [Value.readBack, stored]
    rfl
  rw [← Float64.nearestInt_eq_iff, SameValue, back, number]
  constructor
  · rintro (same | ⟨q, given, read⟩)
    · rw [same] at stored
      cases stored
    · exact (Option.some.inj read).trans (Option.some.inj given).symm
  · intro kept
    exact Or.inr ⟨_, rfl, congrArg some kept⟩

theorem sameValue_readBack_iff (exotic : Value → Option Json) {v : Value} (plain : v.plain) :
    SameValue v (v.readBack exotic) ↔ ∀ q, v.number? = some q → Representable q := by
  have integer {n : Int64} (stored : v.marshal exotic = some (.integer n))
      (number : v.number? = some (n.toInt : ℚ)) :
      SameValue v (v.readBack exotic) ↔ ∀ q, v.number? = some q → Representable q := by
    rw [sameValue_readBack_integer stored number, number]
    exact ⟨fun held q same => Option.some.inj same ▸ held, fun all => all _ rfl⟩
  cases v with
  | null | bool | string => exact iff_of_true (Or.inl rfl) fun q none => nomatch none
  | int n | int64 n => exact integer rfl rfl
  | int32 n =>
      exact integer rfl (by simp [Value.number?])
  | float64 | bytes | other => cases plain

/-! ## Rows -/

/-- Two rows, either of them possibly nil: nil together, with the same columns, and
in each column values related by `rel`. -/
def RowsAgree (rel : Value → Value → Prop) : Option Row → Option Row → Prop :=
  Option.Rel fun row row' => ∀ col, Option.Rel rel (row.lookup col) (row'.lookup col)

theorem rowsAgree_map (rel : Value → Value → Prop) (g : Value → Value) (row : Option Row) :
    RowsAgree rel row (row.map (KeyMap.mapValues fun _ v => g v)) ↔
      ∀ r ∈ row, ∀ col v, r.lookup col = some v → rel v (g v) := by
  cases row with
  | none => exact iff_of_true .none fun r absent => nomatch absent
  | some r =>
      constructor
      · rintro (agree | _) r' same col v found
        cases same
        have column := agree col
        rw [KeyMap.lookup_mapValues, found] at column
        cases column with
        | some related => exact related
      · intro related
        refine .some fun col => ?_
        rw [KeyMap.lookup_mapValues]
        cases found : r.lookup col with
        | none => exact .none
        | some v => exact .some (related r rfl col v found)

/-- What `persist` stores for a row of plain values, and what comes back of it. -/
theorem marshal_plain (exotic : Value → Option Json) (row : Option Row)
    (plain : ∀ r ∈ row, ∀ col v, r.lookup col = some v → v.plain) :
    ∃ stored, (row.elim (some none) fun r => (r.marshal exotic).map some) = some stored ∧
      decodeJSONMap stored = row.map (KeyMap.mapValues fun _ v => v.readBack exotic) := by
  cases row with
  | none => exact ⟨none, rfl, rfl⟩
  | some r =>
      have marshals : r.all fun _ v => (v.marshal exotic).isSome := by
        rw [KeyMap.all_iff]
        exact fun col v found => Value.isSome_marshal (plain r rfl col v found)
      refine ⟨_, by simp only [Option.elim, Row.marshal, if_pos marshals]; rfl, ?_⟩
      simp only [decodeJSONMap, Option.map_some, KeyMap.mapValues_mapValues]
      rfl

/-! ## Changes -/

/-- A value of a column of the old or the new row. -/
def Change.Holds (ch : Change) (v : Value) : Prop :=
  ∃ r, (r ∈ ch.old ∨ r ∈ ch.new) ∧ ∃ col, r.lookup col = some v

def Change.Plain (ch : Change) : Prop := ∀ v, ch.Holds v → v.plain

/-- Every number of the change is one that binary64 holds. -/
def Change.Exact (ch : Change) : Prop :=
  ∀ v, ch.Holds v → ∀ q, v.number? = some q → Representable q

theorem Change.forall_holds {ch : Change} {p : Value → Prop} :
    (∀ v, ch.Holds v → p v) ↔
      (∀ r ∈ ch.old, ∀ col v, r.lookup col = some v → p v) ∧
        ∀ r ∈ ch.new, ∀ col v, r.lookup col = some v → p v := by
  constructor
  · intro all
    exact ⟨fun r old col v found => all v ⟨r, Or.inl old, col, found⟩,
      fun r new col v found => all v ⟨r, Or.inr new, col, found⟩⟩
  · rintro ⟨inOld, inNew⟩ v ⟨r, old | new, col, found⟩
    · exact inOld r old col v found
    · exact inNew r new col v found

/-- Everything but the values: the texts, the position, which rows are nil, which
columns are there and which are NULL. -/
structure SameShape (ch back : Change) : Prop where
  schema : back.schema = ch.schema
  table : back.table = ch.table
  op : back.op.text = ch.op.text
  fingerprint : back.relationFingerprint = ch.relationFingerprint
  commitLSN : back.commitLSN = ch.commitLSN
  old : RowsAgree (fun v w => w = .null ↔ v = .null) ch.old back.old
  new : RowsAgree (fun v w => w = .null ↔ v = .null) ch.new back.new

def SameValues (ch back : Change) : Prop :=
  RowsAgree SameValue ch.old back.old ∧ RowsAgree SameValue ch.new back.new

theorem SameValue.number {v w : Value} (same : SameValue v w) : v.number? = w.number? := by
  rcases same with rfl | ⟨q, given, read⟩
  · rfl
  · rw [given, read]

/-- A change as it comes back. -/
def Change.viaChangeLog (exotic : Value → Option Json) (ch : Change) : Change :=
  { ch with
    op := .ofText ch.op.text
    old := ch.old.map (KeyMap.mapValues fun _ v => v.readBack exotic)
    new := ch.new.map (KeyMap.mapValues fun _ v => v.readBack exotic) }

theorem readBack_store [LSNText] (exotic : Value → Option Json) {ch : Change} (plain : ch.Plain)
    (position : ch.commitLSN < 2 ^ 64) :
    ∃ stored, ch.store exotic = some stored ∧ ∀ xid seq,
      LogEntry.readBack ⟨ch.commitLSN, xid, seq, stored⟩ = some (ch.viaChangeLog exotic) := by
  obtain ⟨plainOld, plainNew⟩ := Change.forall_holds.1 plain
  obtain ⟨old, oldStored, oldRead⟩ := marshal_plain exotic ch.old plainOld
  obtain ⟨new, newStored, newRead⟩ := marshal_plain exotic ch.new plainNew
  refine ⟨⟨ch.schema, ch.table, ch.op.text, ch.relationFingerprint, old, new⟩,
    by simp [Change.store, oldStored, newStored], fun xid seq => ?_⟩
  simp only [LogEntry.readBack, LSNText.parse_string position, oldRead, newRead, Option.map_some,
    Change.viaChangeLog]

theorem sameShape_viaChangeLog (exotic : Value → Option Json) {ch : Change} (plain : ch.Plain) :
    SameShape ch (ch.viaChangeLog exotic) := by
  have null : ∀ v, ch.Holds v → (v.readBack exotic = .null ↔ v = .null) :=
    fun v held => Value.readBack_eq_null (plain v held)
  obtain ⟨nullOld, nullNew⟩ := Change.forall_holds.1 null
  exact ⟨rfl, rfl, Op.text_ofText _, rfl, rfl, (rowsAgree_map _ _ _).2 nullOld,
    (rowsAgree_map _ _ _).2 nullNew⟩

theorem sameValues_viaChangeLog (exotic : Value → Option Json) (ch : Change) :
    SameValues ch (ch.viaChangeLog exotic) ↔
      ∀ v, ch.Holds v → SameValue v (v.readBack exotic) := by
  rw [Change.forall_holds]
  exact and_congr (rowsAgree_map _ _ _) (rowsAgree_map _ _ _)

/-- **The change log keeps a change**, values of integers apart: they come back as
they were exactly when binary64 holds them all, and then different integers stay
different. -/
theorem readBack_faithful_iff [LSNText] (exotic : Value → Option Json) (ch : Change) (xid seq : Nat)
    (plain : ch.Plain) (position : ch.commitLSN < 2 ^ 64) :
    ∃ stored back, ch.store exotic = some stored ∧
      LogEntry.readBack ⟨ch.commitLSN, xid, seq, stored⟩ = some back ∧ SameShape ch back ∧
      (SameValues ch back ↔ ch.Exact) ∧
      (ch.Exact → ∀ v w, ch.Holds v → ch.Holds w → v.number? ≠ w.number? →
        v.readBack exotic ≠ w.readBack exotic) := by
  obtain ⟨stored, written, read⟩ := readBack_store exotic plain position
  have kept : ∀ v, ch.Holds v →
      (SameValue v (v.readBack exotic) ↔ ∀ q, v.number? = some q → Representable q) :=
    fun v held => sameValue_readBack_iff exotic (plain v held)
  refine ⟨stored, ch.viaChangeLog exotic, written, read xid seq,
    sameShape_viaChangeLog exotic plain, ?_, ?_⟩
  · rw [sameValues_viaChangeLog]
    exact forall₂_congr kept
  · intro exactly v w heldV heldW differ same
    refine differ ?_
    rw [((kept v heldV).2 (exactly v heldV)).number, same,
      ← ((kept w heldW).2 (exactly w heldW)).number]

section Counters

attribute [local instance] Pglogrepl.hexadecimal

/-- A row with an explicit NULL and no old row. -/
def firstCount : Change where
  schema := "public"
  table := "counters"
  op := .insert
  commitLSN := 41
  new := some (KeyMap.ofList [("id", .int64 1), ("note", .null)])

theorem readBack_firstCount :
    ∃ stored back, firstCount.store (fun _ => none) = some stored ∧
      LogEntry.readBack ⟨firstCount.commitLSN, 6, 0, stored⟩ = some back ∧
      SameShape firstCount back ∧ SameValues firstCount back := by
  have columns : ∀ v, firstCount.Holds v → v = .int64 1 ∨ v = .null :=
    Change.forall_holds.2 ⟨by rintro r ⟨⟩, by
      rintro r ⟨⟩ col v found
      rw [KeyMap.lookup_ofList_cons, KeyMap.lookup_ofList_cons, KeyMap.lookup_ofList_nil] at found
      split_ifs at found
      · exact Or.inl (Option.some.inj found).symm
      · exact Or.inr (Option.some.inj found).symm⟩
  have plain : firstCount.Plain := by
    intro v held
    rcases columns v held with rfl | rfl <;> rfl
  have small : firstCount.Exact := by
    intro v held q number
    rcases columns v held with rfl | rfl
    · cases number
      exact ⟨1, 0, by simp, by decide, by decide, by decide⟩
    · cases number
  obtain ⟨stored, back, written, read, shape, values, -⟩ :=
    readBack_faithful_iff (fun _ => none) firstCount 6 0 plain (by decide)
  exact ⟨stored, back, written, read, shape, values.2 small⟩

/-- An update of one column from `2 ^ 53 + 1` to `2 ^ 53`. -/
def decrement : Change where
  schema := "public"
  table := "counters"
  op := .update
  commitLSN := 42
  old := some (KeyMap.ofList [("id", .int64 1), ("n", .int64 9007199254740993)])
  new := some (KeyMap.ofList [("id", .int64 1), ("n", .int64 9007199254740992)])

theorem plain_decrement : decrement.Plain :=
  Change.forall_holds.2
    ⟨by rintro r ⟨⟩; exact (KeyMap.all_iff _ fun _ => Value.plain).1 (by decide),
      by rintro r ⟨⟩; exact (KeyMap.all_iff _ fun _ => Value.plain).1 (by decide)⟩

/-- Fan-out reads it as an update that changes nothing. -/
theorem readBack_decrement :
    ∃ stored back, decrement.store (fun _ => none) = some stored ∧
      LogEntry.readBack ⟨decrement.commitLSN, 7, 0, stored⟩ = some back ∧
      decrement.old ≠ decrement.new ∧ back.old = back.new ∧ ¬ SameValues decrement back := by
  obtain ⟨stored, written, read⟩ := readBack_store (fun _ => none) plain_decrement (by decide)
  have merged : (Value.int64 9007199254740993).readBack (fun _ => none) =
      (Value.int64 9007199254740992).readBack fun _ => none := by
    decide +kernel
  refine ⟨stored, _, written, read 7 0, by decide, by decide +kernel, fun same => ?_⟩
  rw [sameValues_viaChangeLog] at same
  have before := (same (.int64 9007199254740993) ⟨_, Or.inl rfl, "n", by decide⟩).number
  have after := (same (.int64 9007199254740992) ⟨_, Or.inr rfl, "n", by decide⟩).number
  rw [merged, ← after] at before
  exact absurd before (by decide)

end Counters

end Tether.Wal
