/-
# Tether.Wal.Change — rows and the changes decoded from the write-ahead log

A row is a `map[string]any`.  The dynamic types the engine tells apart are the
constructors of `Value`; every other Go type is `other`, known by its name and by
the text `fmt.Sprint` gives it.  What `encoding/json` writes for it, if it writes
anything, is a parameter of `Tether.Wal.Json`.

`Change` is `internal/wal/decode.go`'s record of one row mutation.  `old` and
`new` distinguish a nil map, an empty map, an absent column and a NULL column.
-/
import Tether.Lib.Float64
import Tether.Lib.KeyMap

namespace Tether.Wal

open Tether.Lib

set_option autoImplicit false

/-- A Go value stored in a column; `int` is 64 bits wide. -/
inductive Value where
  | null
  | bool (b : Bool)
  | int (n : Int64)
  | int32 (n : Int32)
  | int64 (n : Int64)
  | float64 (x : Float64)
  | string (s : String)
  | bytes (b : List UInt8)
  | other (type text : String)
  deriving DecidableEq

/-- A column that is absent is not a column that is `null`. -/
abbrev Row := KeyMap String Value

/-- `fmt.Sprint` of one operand. -/
def sprint : Value → String
  | .null => "<nil>"
  | .bool b => if b then "true" else "false"
  | .int n => n.toInt.repr
  | .int32 n => n.toInt.repr
  | .int64 n => n.toInt.repr
  | .float64 x => String.ofList x.formatG
  | .string s => s
  | .bytes b => "[" ++ " ".intercalate (b.map fun byte => byte.toNat.repr) ++ "]"
  | .other _ text => text

/-- `%q`, for texts of printable characters. -/
def quote (s : String) : String :=
  "\"" ++ String.ofList (s.toList.flatMap fun c =>
    if c = '"' ∨ c = '\\' then ['\\', c] else [c]) ++ "\""

/-- A write-ahead log position; `0` is "unknown" in a `Change`. -/
abbrev LSN := Nat

/-- `wal.Op` is a string type; the three constants and any other text. -/
inductive Op where
  | insert
  | update
  | delete
  | unknown (text : String)
  deriving DecidableEq

structure Change where
  schema : String
  table : String
  op : Op
  relationFingerprint : String := ""
  commitLSN : LSN := 0
  old : Option Row := none
  new : Option Row := none
  deriving DecidableEq

end Tether.Wal
