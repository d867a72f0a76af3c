/-
# Tether.Engine.Session — sessions, their messages and the engine's state

The parts of `engine.go` that subscriptions and fan-out share: the protocol's
server messages, a client session with its subscribed shape names, and the engine
with its streams and sessions.

Every buffered message carries `source`, the key of the stream whose event it is.
It is a ghost: the engine never reads it, and only statements do.

Go iterates over a map in an order of its own choosing.  `streams` is an
association list, so that its order is the order the next iteration takes; for
sessions no order can matter, since no two share a connection.
-/
import Mathlib.Data.List.AList
import Tether.Shape.Instance
import Tether.Transport.Conn
import Tether.Wal.Json

namespace Tether

open Lib Wal Shape Transport

set_option autoImplicit false

/-- The messages of `internal/proto` that subscriptions and fan-out send. -/
inductive Message where
  | snapshot (shape : String) (lsn : LSN) (offset : Int) (rows : Multiset Row)
  | change (shape : String) (offset : Int) (op : EventOp) (row : Row)
  | error (code message shape : String)
  deriving DecidableEq

structure Sent where
  message : Message
  source : Option String
  deriving DecidableEq

def codeHalted : String := "shape_halted"
def reasonSlowClient : String := "slow_client"

structure Session (C : Type) where
  conn : Conn Sent
  claims : C
  resume : KeyMap String Int := ∅
  shapes : Finset String := ∅

/-- `exotic` is what `json.Marshal` makes of the values the model leaves open. -/
structure Engine (C : Type) where
  registry : String → Option (Definition C)
  claimsKey : C → String
  exotic : Value → Option Json
  streams : AList fun _ : String => Instance C := ∅
  sessions : KeyMap String (Session C) := ∅

/-- A shape name and a claims key, with a NUL between them. -/
def streamKey (shapeName claimsKey : String) : String := shapeName ++ "\x00" ++ claimsKey

/-- The position of the first NUL. -/
def indexNull (s : String) : Option Nat := s.toList.findIdx? (· == '\x00')

/-- The shape name that fan-out reads off a stream key. -/
def shapeNameOf (key : String) : String :=
  match indexNull key with
  | some i => String.ofList (key.toList.take i)
  | none => key

/-- `enqueueChange`.  A row that cannot be marshalled is dropped, and that counts
as delivered. -/
def enqueueChange (exotic : Value → Option Json) (conn : Conn Sent) (source shapeName : String)
    (ev : Event) : Conn Sent × Bool :=
  if ev.row.marshals exotic then
    conn.enqueue ⟨.change shapeName ev.offset ev.op ev.row, some source⟩
  else (conn, true)

/-- `sendErr`: the outcome of `Enqueue` is ignored. -/
def sendErr (conn : Conn Sent) (code message shapeName : String) : Conn Sent :=
  (conn.enqueue ⟨.error code message shapeName, none⟩).1

end Tether
