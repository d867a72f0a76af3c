/-
# Tether.Shape.Filter — row predicates and the equality they use

A `Filter` is a conjunction of predicates on single columns
(`internal/shape/filter.go`).  The source numbers the four operators and returns
an error for a fifth; here they are an enumeration, so `match` has no error to
return.  A missing column fails both comparisons and counts as NULL for the null
tests.

`valuesEqual` with `numEqual` and `numEqualFloat` compares by number when both
sides are numbers and by text otherwise.
-/
import Tether.Wal.Change

namespace Tether.Shape

open Tether.Lib Tether.Wal

set_option autoImplicit false

def numEqual (a : Int64) : Value → Bool
  | .int b => a == b
  | .int32 b => a == b.toInt64
  | .int64 b => a == b
  | .float64 b => (Float64.ofInt64 a).eq b
  | .string b => a.toInt.repr == b
  | b => sprint (.int64 a) == sprint b

/-- Unlike `numEqual`, an `int32` on the right is compared by its text. -/
def numEqualFloat (a : Float64) : Value → Bool
  | .float64 b => a.eq b
  | .int b => a.eq (Float64.ofInt64 b)
  | .int64 b => a.eq (Float64.ofInt64 b)
  | b => sprint (.float64 a) == sprint b

def valuesEqual : Value → Value → Bool
  | .null, .null => true
  | .null, _ | _, .null => false
  | .int a, b => numEqual a b
  | .int32 a, b => numEqual a.toInt64 b
  | .int64 a, b => numEqual a b
  | .float64 a, b => numEqualFloat a b
  | .string a, b => sprint b == a
  | .bytes a, b => (sprint b).toUTF8.toList == a
  | a, b => sprint a == sprint b

inductive PredOp where
  | eq
  | ne
  | isNull
  | isNotNull
  deriving DecidableEq

/-- `value` is ignored by the null tests. -/
structure Predicate where
  column : String
  op : PredOp
  value : Value := .null
  deriving DecidableEq

structure Filter where
  preds : List Predicate
  deriving DecidableEq

/-- `column IS NOT NULL`. -/
def Filter.notNull (column : String) : Filter := ⟨[{ column := column, op := .isNotNull }]⟩

def Predicate.match (p : Predicate) (row : Row) : Bool :=
  match p.op, row.lookup p.column with
  | .isNull, none => true
  | .isNull, some v => v == .null
  | .isNotNull, none => false
  | .isNotNull, some v => v != .null
  | .eq, none => false
  | .eq, some v => valuesEqual v p.value
  | .ne, none => false
  | .ne, some v => !valuesEqual v p.value

/-- The verdict of a predicate on a column that is there. -/
def Predicate.accepts (p : Predicate) (v : Value) : Bool :=
  match p.op with
  | .eq => valuesEqual v p.value
  | .ne => !valuesEqual v p.value
  | .isNull => v == .null
  | .isNotNull => v != .null

theorem Predicate.match_of_lookup {p : Predicate} {row : Row} {v : Value}
    (found : row.lookup p.column = some v) : p.match row = p.accepts v := by
  cases op : p.op <;> simp [Predicate.match, Predicate.accepts, op, found]

/-- A nil row matches nothing. -/
def Filter.match (f : Filter) : Option Row → Bool
  | none => false
  | some row => f.preds.all fun p => p.match row

@[simp] theorem Filter.match_none (f : Filter) : f.match none = false := rfl

/-- Only `IS NULL` accepts an absent column. -/
theorem Filter.match_empty_iff (f : Filter) :
    f.match (some ∅) = true ↔ ∀ p ∈ f.preds, p.op = .isNull := by
  have absent : ∀ p : Predicate, p.match ∅ = true ↔ p.op = .isNull := by
    intro p
    cases op : p.op <;> simp [Predicate.match, op]
  simp [Filter.match, absent]

end Tether.Shape
