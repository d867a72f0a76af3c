/-
# Tether.Shape.MatchForms — one filter on the two forms of a row

A snapshot row holds integers as `int32` or `int64`, the same row on the live path
holds them as `float64`.  `Filter.Match` compares an integer with `numEqual` in the
first form and with `numEqualFloat` in the second.  The two differ for an `int32`
argument, which `numEqualFloat` does not know as a number, and for a text: there the
second form is compared by its `%g` text, which has an exponent from `10 ^ 6` on.

`Confuses` are the arguments where this shows.  A predicate gives one verdict on both
forms exactly when its argument does not confuse the value it meets, and a filter
exactly when it rejects both forms or has no such predicate (`match_forms_iff`).
-/
import Tether.Shape.RowIdentity
import Tether.Shape.SqlClause

namespace Tether.Shape

open Tether.Lib Tether.Wal

set_option autoImplicit false

/-! ## One comparison -/

/-- A column of the row: NULL, a text, or an integer below `2 ^ 53` in magnitude. -/
def PlainValue : Value → Prop
  | .null | .string _ | .int32 _ => True
  | .int64 n => n.toInt.natAbs < 2 ^ 53
  | _ => False

/-- The Go types of the arguments. -/
def PlainArg : Value → Prop
  | .int _ | .int32 _ | .int64 _ | .string _ => True
  | _ => False

/-- The integer of a snapshot value. -/
def integer? : Value → Option Int64
  | .int32 n => some n.toInt64
  | .int64 n => some n
  | _ => none

/-- The argument meets only one of the two forms of `n`: the same number as an `int32`,
or one of the two texts of `n`. -/
def Confuses (arg : Value) (n : Int64) : Prop :=
  10 ^ 6 ≤ n.toInt.natAbs ∧
    match arg with
    | .int32 m => m.toInt64 = n
    | .string s => s = sprint (.int64 n) ∨ s = sprint (.float64 (.ofInt64 n))
    | _ => False

theorem integer?_small {v : Value} {n : Int64} (plain : PlainValue v) (held : integer? v = some n) :
    n.toInt.natAbs < 2 ^ 53 := by
  cases v with
  | int32 m =>
      cases held
      have := m.toInt_lt
      have := m.le_toInt
      rw [Int32.toInt_toInt64]
      omega
  | int64 m =>
      cases held
      exact plain
  | _ => cases held

theorem repr_ne_exponent {n : Int64} (large : 10 ^ 6 ≤ n.toInt.natAbs) (k : Int) :
    sprint (.float64 (.ofInt64 n)) ≠ k.repr := by
  intro same
  refine Float64.formatG_ofInt64_ne n large k ?_
  rw [← same, sprint, String.toList_ofList]

theorem sprint_int32_iff {n : Int64} {m : Int32} :
    sprint (.int64 n) = m.toInt.repr ↔ n = m.toInt64 := by
  constructor
  · intro same
    refine Int64.toInt_inj.1 ?_
    rw [Int32.toInt_toInt64]
    exact Float64.intRepr_inj same
  · rintro rfl
    rw [sprint, Int32.toInt_toInt64]

/-- **One integer, one argument.**  The two forms compare alike unless the argument
confuses them. -/
theorem numEqual_agrees_iff {n : Int64} (small : n.toInt.natAbs < 2 ^ 53) {arg : Value}
    (typed : PlainArg arg) :
    numEqual n arg = numEqualFloat (.ofInt64 n) arg ↔ ¬ Confuses arg n := by
  cases arg with
  | int m | int64 m =>
      refine iff_of_true ?_ fun confused => confused.2
      exact (Float64.eq_ofInt64 small m).symm
  | int32 m =>
      have snapshot : numEqual n (.int32 m) = decide (sprint (.int64 n) = m.toInt.repr) := by
        rw [numEqual, Bool.beq_eq_decide_eq]
        exact decide_eq_decide.2 sprint_int32_iff.symm
      have onLive : numEqualFloat (.ofInt64 n) (.int32 m) =
          decide (sprint (.float64 (.ofInt64 n)) = m.toInt.repr) := Bool.beq_eq_decide_eq _ _
      rw [snapshot, onLive]
      rcases Nat.lt_or_ge n.toInt.natAbs (10 ^ 6) with below | large
      · rw [(sprint_integer n).2 below]
        exact iff_of_true rfl fun confused => absurd confused.1 (Nat.not_le_of_lt below)
      · rw [decide_eq_false (repr_ne_exponent large m.toInt), decide_eq_false_iff_not,
          sprint_int32_iff]
        exact not_congr ⟨fun same => ⟨large, same.symm⟩, fun confused => confused.2.symm⟩
  | string s =>
      have snapshot : numEqual n (.string s) = decide (sprint (.int64 n) = s) :=
        Bool.beq_eq_decide_eq _ _
      have onLive : numEqualFloat (.ofInt64 n) (.string s) =
          decide (sprint (.float64 (.ofInt64 n)) = s) := Bool.beq_eq_decide_eq _ _
      rw [snapshot, onLive]
      rcases Nat.lt_or_ge n.toInt.natAbs (10 ^ 6) with below | large
      · rw [(sprint_integer n).2 below]
        exact iff_of_true rfl fun confused => absurd confused.1 (Nat.not_le_of_lt below)
      · have differ : sprint (.int64 n) ≠ sprint (.float64 (.ofInt64 n)) := fun same =>
          absurd ((sprint_integer n).1 same) (Nat.not_lt_of_le large)
        have either : Confuses (.string s) n ↔
            s = sprint (.int64 n) ∨ s = sprint (.float64 (.ofInt64 n)) := and_iff_right large
        rw [either, decide_eq_decide]
        constructor
        · rintro agree (rfl | rfl)
          · exact differ (agree.1 rfl).symm
          · exact differ (agree.2 rfl)
        · intro neither
          obtain ⟨notDecimal, notExponent⟩ := not_or.1 neither
          exact iff_of_false (fun same => notDecimal same.symm) fun same => notExponent same.symm
  | _ => cases typed

variable (exotic : Value → Option Json)

theorem valuesEqual_integer {v arg : Value} {n : Int64} (held : integer? v = some n)
    (typed : PlainArg arg) :
    valuesEqual v arg = numEqual n arg ∧
      valuesEqual (v.readBack exotic) arg = numEqualFloat (.ofInt64 n) arg := by
  cases v with
  | int32 m | int64 m =>
      cases held
      cases arg with
      | int _ | int32 _ | int64 _ | string _ => exact ⟨rfl, rfl⟩
      | _ => cases typed
  | _ => cases held

/-- NULL and texts have one form. -/
theorem readBack_of_not_integer {v : Value} (plain : PlainValue v) (other : integer? v = none) :
    v.readBack exotic = v := by
  cases v with
  | null | string _ => rfl
  | int32 _ | int64 _ => cases other
  | _ => cases plain

theorem valuesEqual_agrees_iff {v arg : Value} (plain : PlainValue v) (typed : PlainArg arg) :
    valuesEqual v arg = valuesEqual (v.readBack exotic) arg ↔
      ∀ n ∈ integer? v, ¬ Confuses arg n := by
  cases held : integer? v with
  | none =>
      rw [readBack_of_not_integer exotic plain held]
      exact iff_of_true rfl fun n absent => absurd absent (Option.not_mem_none n)
  | some n =>
      obtain ⟨snapshot, onLive⟩ := valuesEqual_integer exotic held typed
      rw [snapshot, onLive, numEqual_agrees_iff (integer?_small plain held) typed]
      simp

theorem readBack_eq_null_iff {v : Value} (plain : PlainValue v) :
    v.readBack exotic = .null ↔ v = .null := by
  cases v with
  | null => exact iff_of_true rfl rfl
  | string s => exact iff_of_false (by rintro ⟨⟩) (by rintro ⟨⟩)
  | int32 n | int64 n => exact iff_of_false (by rintro ⟨⟩) (by rintro ⟨⟩)
  | _ => cases plain

/-! ## Predicates and filters -/

/-- The predicate compares its column with an argument that confuses it. -/
def Predicate.Confused (p : Predicate) (row : Row) : Prop :=
  p.op.compares = true ∧ ∃ v ∈ row.lookup p.column, ∃ n ∈ integer? v, Confuses p.value n

/-- The columns of the row are NULL, texts and integers below `2 ^ 53`. -/
def PlainRow (row : Row) : Prop := ∀ col, ∀ v ∈ row.lookup col, PlainValue v

variable {row other : Row}

theorem PlainRow.stored (plain : PlainRow row) : ∃ other, row.viaChangeLog exotic = some other := by
  have marshals : row.all (fun _ v => (v.marshal exotic).isSome) = true := by
    rw [KeyMap.all_iff]
    intro col v found
    have typed := plain col v found
    cases v with
    | null | string _ | int32 _ | int64 _ => rfl
    | _ => cases typed
  rw [Row.viaChangeLog, Row.marshal, if_pos marshals]
  exact ⟨_, rfl⟩

/-- **One predicate on the two forms of a row.** -/
theorem Predicate.match_agrees_iff {p : Predicate} (plain : PlainRow row)
    (typed : p.op.compares = true → PlainArg p.value)
    (stored : row.viaChangeLog exotic = some other) :
    p.match row = p.match other ↔ ¬ p.Confused row := by
  have transported : other.lookup p.column = (row.lookup p.column).map (Value.readBack exotic) :=
    Row.lookup_viaChangeLog stored p.column
  cases found : row.lookup p.column with
  | none =>
      rw [found] at transported
      refine iff_of_true ?_ ?_
      · cases op : p.op <;> simp [Predicate.match, op, found, transported]
      · rintro ⟨-, v, member, -⟩
        rw [found] at member
        exact absurd member (Option.not_mem_none v)
  | some v =>
      rw [found] at transported
      have value := plain p.column v found
      have confused : p.Confused row ↔
          p.op.compares = true ∧ ∃ n ∈ integer? v, Confuses p.value n := by
        simp [Predicate.Confused, found]
      rw [confused, Predicate.match_of_lookup found, Predicate.match_of_lookup transported,
        Predicate.accepts, Predicate.accepts]
      cases op : p.op with
      | eq | ne =>
          have agrees := valuesEqual_agrees_iff exotic value (typed (by rw [op]; rfl))
          simp only [PredOp.compares, true_and, not_exists, not_and, Bool.not_inj_iff]
          exact agrees
      | isNull | isNotNull =>
          have null : (v == .null) = (v.readBack exotic == .null) := by
            rw [Bool.beq_eq_decide_eq, Bool.beq_eq_decide_eq]
            exact decide_eq_decide.2 (readBack_eq_null_iff exotic value).symm
          simp [PredOp.compares, bne, null]

/-- A filter gives one verdict on two rows on which its predicates differ exactly where
`Differs` says, iff it rejects both or has no such predicate. -/
theorem Filter.match_agrees_iff {f : Filter} {Differs : Predicate → Prop}
    (each : ∀ p ∈ f.preds, p.match row = p.match other ↔ ¬ Differs p) :
    f.match (some row) = f.match (some other) ↔
      (f.match (some row) = true ∨ f.match (some other) = true → ∀ p ∈ f.preds, ¬ Differs p) := by
  simp only [Filter.match]
  constructor
  · intro same accepted p member
    have both : (f.preds.all fun p => p.match row) = true ∧
        (f.preds.all fun p => p.match other) = true := by
      rcases accepted with here | there
      · exact ⟨here, same ▸ here⟩
      · exact ⟨same ▸ there, there⟩
    refine (each p member).1 ?_
    rw [List.all_eq_true.1 both.1 p member, List.all_eq_true.1 both.2 p member]
  · intro alike
    rw [List.all_eq_true, List.all_eq_true] at alike
    rw [Bool.eq_iff_iff, List.all_eq_true, List.all_eq_true]
    constructor
    · intro holds p member
      rw [← (each p member).2 (alike (Or.inl holds) p member)]
      exact holds p member
    · intro holds p member
      rw [(each p member).2 (alike (Or.inr holds) p member)]
      exact holds p member

/-- **`Match` on the snapshot form and on the live form**, for a parsed filter with
arguments of the four types.  The condition on a predicate and the one on the filter
are exact. -/
theorem match_forms_iff (u : Unicode) (clause : GoString) (args : List Value) (f : Filter)
    (parsed : parseWhere u clause args = .ok f) (typed : ∀ arg ∈ args, PlainArg arg)
    (exotic : Value → Option Json) (row : Row) (plain : PlainRow row) :
    ∃ other, row.viaChangeLog exotic = some other ∧
      (∀ p ∈ f.preds, p.match row = p.match other ↔ ¬ p.Confused row) ∧
      (f.match (some row) = f.match (some other) ↔
        (f.match (some row) = true ∨ f.match (some other) = true →
          ∀ p ∈ f.preds, ¬ p.Confused row)) := by
  obtain ⟨other, stored⟩ := plain.stored exotic
  have values : ∀ p ∈ f.preds, p.op.compares = true → PlainArg p.value := by
    intro p member compares
    refine typed p.value ?_
    rw [← parseWhere_comparands parsed]
    exact List.mem_map_of_mem (List.mem_filter.2 ⟨member, compares⟩)
  have each : ∀ p ∈ f.preds, p.match row = p.match other ↔ ¬ p.Confused row :=
    fun p member => Predicate.match_agrees_iff exotic plain (values p member) stored
  exact ⟨other, stored, each, Filter.match_agrees_iff each⟩

namespace Sensors

def sensor (id : Int32) : Row := KeyMap.ofList [("id", .int32 id), ("site", .string "north")]

def liveSensor (id : Int32) : Row :=
  KeyMap.ofList [("id", .float64 (.ofInt64 id.toInt64)), ("site", .string "north")]

/-- `id = ? AND site = ?` -/
def byId (id : Value) : Filter := ⟨[⟨"id", .eq, id⟩, ⟨"site", .eq, .string "north"⟩]⟩

theorem plainRow_sensor (id : Int32) : PlainRow (sensor id) := by
  intro col v found
  rw [sensor, KeyMap.lookup_ofList_cons, KeyMap.lookup_ofList_cons, KeyMap.lookup_ofList_nil]
    at found
  split_ifs at found <;> cases found <;> trivial

/-- An `int64` argument confuses nothing. -/
theorem match_forms_int64 :
    ∃ other, (sensor 1000000).viaChangeLog (fun _ => none) = some other ∧
      (byId (.int64 1000000)).match (some other) = true := by
  have parsed : parseWhere .ascii (.ofString "id = ? AND site = ?")
      [.int64 1000000, .string "north"] = .ok (byId (.int64 1000000)) := by
    decide +kernel
  have typed : ∀ arg ∈ [Value.int64 1000000, .string "north"], PlainArg arg := by
    simp [PlainArg]
  obtain ⟨other, stored, -, agrees⟩ :=
    match_forms_iff .ascii _ _ _ parsed typed (fun _ => none) _ (plainRow_sensor 1000000)
  have matched : (byId (.int64 1000000)).match (some (sensor 1000000)) = true := by decide +kernel
  refine ⟨other, stored, (agrees.2 fun _ p member => ?_).symm.trans matched⟩
  simp only [byId, List.mem_cons, List.not_mem_nil, or_false] at member
  rintro ⟨-, v, found, n, held, -, confused⟩
  rcases member with rfl | rfl
  · exact confused
  · rw [sensor, KeyMap.lookup_ofList_cons, KeyMap.lookup_ofList_cons] at found
    cases found
    cases held

/-- The same number as an `int32`, and as a text, matches the snapshot row only; its
exponent form matches the live row only. -/
theorem match_forms_differ :
    parseWhere .ascii (.ofString "id = ? AND site = ?") [.int32 1000000, .string "north"] =
        .ok (byId (.int32 1000000)) ∧
      (sensor 1000000).viaChangeLog (fun _ => none) = some (liveSensor 1000000) ∧
      (byId (.int32 1000000)).match (some (sensor 1000000)) = true ∧
      (byId (.int32 1000000)).match (some (liveSensor 1000000)) = false ∧
      (byId (.string "1000000")).match (some (sensor 1000000)) = true ∧
      (byId (.string "1000000")).match (some (liveSensor 1000000)) = false ∧
      (byId (.string "1e+06")).match (some (sensor 1000000)) = false ∧
      (byId (.string "1e+06")).match (some (liveSensor 1000000)) = true := by
  decide +kernel

end Sensors

end Tether.Shape
