/-
# Tether.Wal.Replication — one slot, one consumer, and the crashes between them

The machine has five parts: the transactions of the source database in commit order,
the acknowledgements the consumer ever sent, the two tables of one `ConsumerID`, the
durable transaction in flight, and the consumer process with its replication session.

* Postgres delivers the transactions in order, one message at a time, from wherever it
  started the session: it may skip a transaction only if its end LSN is at most the
  start position or was acknowledged, and may redeliver all others.
* `persist` is atomic.  Its COMMIT and the consumer's knowledge of it are two things:
  the transaction in flight is settled by a step of its own, also after the process
  that sent it is gone, and a process can stop before it learns the outcome.  The next
  `persist` waits for it, on the checkpoint row that both write.
* A process stops at any point: crash, error of a call, error of the
  `AfterDurableCommit` hook.
-/
import Tether.Lib.Machine
import Tether.Wal.Consumer

namespace Tether.Durability

open Tether.Lib Tether.Wal

set_option autoImplicit false

/-- A row message and the relation its columns are read with. -/
abbrev Item := RelationMessage × RowMessage

/-- A committed source transaction, as pgoutput sends it. -/
structure Txn where
  xid : Nat
  commitLSN : LSN
  endLSN : LSN
  body : List Item

/-- Where the session is: between two transactions, before the rest of one, in
`persist`, or after it and before the acknowledgement. -/
inductive Position where
  | between
  | inside (rest : List Item)
  | persisting
  | persisted (lsn : LSN)

/-- A process in its session; `sent` is what Postgres announced in it. -/
structure Session where
  consumer : Consumer
  sent : KeyMap Nat RelationMessage
  cursor : Nat
  position : Position

/-- A durable transaction in flight. -/
structure Persist where
  lsn : LSN
  xid : Nat
  changes : List StoredChange

structure State where
  txns : List Txn
  acks : List LSN
  db : Database
  inflight : Option Persist
  session : Option Session

inductive Delivery where
  | begin
  | relation (m : RelationMessage)
  | row
  | commit
  | other

inductive Event where
  | source (t : Txn)
  | start (cursor : Nat)
  | deliver (d : Delivery)
  | settle (committed : Bool)
  | ack
  | status
  | stop

/-- The next message of the session.  Postgres announces a relation before the first
row that needs it; it may announce any relation at any time. -/
def Session.message (txns : List Txn) (q : Session) :
    Delivery → Option (LogicalMessage × Session)
  | .begin =>
      match q.position, txns[q.cursor]? with
      | .between, some t => some (.begin t.xid, { q with position := .inside t.body })
      | _, _ => none
  | .relation m =>
      match q.position with
      | .inside _ => some (.relation m, { q with sent := q.sent.insert m.relationID m })
      | _ => none
  | .row =>
      match q.position with
      | .inside ((rel, m) :: rest) =>
          if q.sent.lookup m.relationID = some rel then
            some (.row m, { q with position := .inside rest })
          else none
      | _ => none
  | .commit =>
      match q.position, txns[q.cursor]? with
      | .inside [], some t =>
          some (.commit t.commitLSN t.endLSN, { q with position := .persisting })
      | _, _ => none
  | .other =>
      match q.position with
      | .between | .inside _ => some (.other, q)
      | _ => none

/-- Postgres may start behind `cursor` transactions only if it need not send them. -/
def State.skippable (s : State) (cursor : Nat) : Prop :=
  cursor ≤ s.txns.length ∧ ∀ t ∈ s.txns.take cursor,
    t.endLSN ≤ Consumer.resolveStartLSN s.db ∨ ∃ a ∈ s.acks, t.endLSN ≤ a

instance (s : State) (cursor : Nat) : Decidable (s.skippable cursor) :=
  inferInstanceAs (Decidable (_ ∧ _))

/-- The outcome of the transaction in flight; the process that waits for it returns
an error when it failed. -/
def State.settle (s : State) (x : Persist) (committed : Bool) : State :=
  { s with
    inflight := none
    db := if committed then s.db.persist x.lsn x.xid x.changes else s.db
    session := s.session.bind fun q =>
      match q.position with
      | .persisting => if committed then some { q with position := .persisted x.lsn } else none
      | _ => some q }

section Machine

variable (types : Types) (exotic : Value → Option Json)

def State.deliver (s : State) (q : Session) (msg : LogicalMessage) : Option State :=
  match q.consumer.handle types msg with
  | .next c => some { s with session := some { q with consumer := c } }
  | .stop _ => some { s with session := none }
  | .persist c lsn =>
      match c.stored exotic, s.inflight with
      | none, _ => some { s with session := none }
      | some changes, none =>
          some { s with
            inflight := some ⟨lsn, c.curXid, changes⟩
            session := some { q with consumer := c } }
      | some _, some _ => none

def step (s : State) : Event → Option State
  | .source t =>
      if 0 < t.endLSN ∧ ∀ t' ∈ s.txns, t'.endLSN < t.endLSN then
        some { s with txns := s.txns ++ [t] }
      else none
  | .start cursor =>
      if s.session.isNone ∧ s.skippable cursor then
        some { s with session := some ⟨Consumer.run s.db, ∅, cursor, .between⟩ }
      else none
  | .deliver d => do
      let q ← s.session
      let (msg, q') ← q.message s.txns d
      s.deliver types exotic q' msg
  | .settle committed => do
      let x ← s.inflight
      return s.settle x committed
  | .ack => do
      let q ← s.session
      match q.position with
      | .persisted lsn =>
          some { s with
            acks := s.acks ++ [lsn]
            session := some { q with
              consumer := q.consumer.acknowledge lsn
              cursor := q.cursor + 1
              position := .between } }
      | _ => none
  | .status => do
      let q ← s.session
      match q.position with
      | .between | .inside _ => some { s with acks := s.acks ++ [q.consumer.durable] }
      | _ => none
  | .stop => do
      let _ ← s.session
      return { s with session := none }

def initial : State := ⟨[], [], .empty, none, none⟩

def machine : Machine State Event := ⟨(· = initial), step types exotic⟩

end Machine

end Tether.Durability
