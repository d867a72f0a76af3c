/-
# Tether.Wal.Json — rows as `encoding/json` writes and reads them

`persist` writes a row with `json.Marshal` into a JSONB column and fan-out reads it back
with `decodeJSONMap`; the messages to clients are marshalled too.  A JSON number has no Go
type: every number comes back as a `float64`, the one nearest to the stored value.

`exotic` is what `encoding/json` writes for a Go value of a type the model does not look
into (`[]byte` and the types behind `Value.other`), or `none` where it refuses the value:
a `float32` NaN, an array with a NaN in it, a `numeric` infinity, a time past the year 9999.
-/
import Tether.Wal.Change

namespace Tether.Wal

open Tether.Lib

set_option autoImplicit false

/-- A JSONB scalar.  `float` is the shortest numeral of a binary64 number, which
reads back as that number. -/
inductive Json where
  | null
  | bool (b : Bool)
  | integer (n : Int64)
  | float (x : Float64)
  | string (s : String)
  deriving DecidableEq

/-- `json.Marshal` of a column; it refuses NaN and the infinities. -/
def Value.marshal (exotic : Value → Option Json) : Value → Option Json
  | .null => some .null
  | .bool b => some (.bool b)
  | .int n => some (.integer n)
  | .int32 n => some (.integer n.toInt64)
  | .int64 n => some (.integer n)
  | .float64 .nan => none
  | .float64 (.inf _) => none
  | .float64 x => some (.float x)
  | .string s => some (.string s)
  | v => exotic v

/-- `json.Unmarshal` into an `any`.  A JSONB number is a `numeric`, which has no
negative zero. -/
def Json.unmarshal : Json → Value
  | .null => .null
  | .bool b => .bool b
  | .integer n => .float64 (.ofInt64 n)
  | .float .negZero => .float64 (.ofInt64 0)
  | .float x => .float64 x
  | .string s => .string s

/-- `json.Marshal` of a row: one column that fails fails the row. -/
def Row.marshal (exotic : Value → Option Json) (row : Row) : Option (KeyMap String Json) :=
  if row.all fun _ v => (v.marshal exotic).isSome then
    some (KeyMap.mapValues (fun _ v => (v.marshal exotic).getD .null) row)
  else none

/-- `json.Marshal` writes the row. -/
def Row.marshals (exotic : Value → Option Json) (row : Row) : Bool := (row.marshal exotic).isSome

/-- `decodeJSONMap`; SQL NULL is the nil row. -/
def decodeJSONMap (stored : Option (KeyMap String Json)) : Option Row :=
  stored.map (KeyMap.mapValues fun _ v => v.unmarshal)

/-- A value as it comes back. -/
def Value.readBack (exotic : Value → Option Json) (v : Value) : Value :=
  ((v.marshal exotic).getD .null).unmarshal

/-- A row as the live path delivers it; `none` when `persist` could not store it. -/
def Row.viaChangeLog (exotic : Value → Option Json) (row : Row) : Option Row :=
  (row.marshal exotic).bind fun stored => decodeJSONMap (some stored)

theorem Row.lookup_viaChangeLog {exotic : Value → Option Json} {row live : Row}
    (stored : row.viaChangeLog exotic = some live) (col : String) :
    live.lookup col = (row.lookup col).map (Value.readBack exotic) := by
  simp only [viaChangeLog, marshal, decodeJSONMap] at stored
  split at stored
  · simp only [Option.bind_some, Option.map_some, Option.some.injEq] at stored
    subst stored
    rw [KeyMap.lookup_mapValues, KeyMap.lookup_mapValues, Option.map_map]
    rfl
  · cases stored

end Tether.Wal
