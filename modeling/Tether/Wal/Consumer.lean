/-
# Tether.Wal.Consumer — the message loop of one replication session

`Consumer.handle` is the switch inside `Run`, one pgoutput message at a time, with
the loop's two locals (`pending`, `curXid`) kept beside the fields of `Consumer`.
A commit does not finish inside the switch: it asks for the durable transaction,
and the loop goes on only after `persistAndAck` returned.  `Reaction` is where the
switch leaves the loop: on to the next message, into `persist`, or out with an error.

Before a tuple is decoded its relation must have been announced in this session; a
second announcement under the same number with other columns stops the consumer.
-/
import Tether.Wal.ChangeLog
import Tether.Wal.Decode

namespace Tether.Wal

open Tether.Lib

set_option autoImplicit false

/-- `other` is every message `Run` receives and has no case for. -/
inductive LogicalMessage where
  | relation (m : RelationMessage)
  | begin (xid : Nat)
  | row (m : RowMessage)
  | commit (commitLSN transactionEndLSN : LSN)
  | other
  deriving DecidableEq

structure Consumer where
  rels : KeyMap Nat RelationMeta := ∅
  durable : LSN := 0
  pending : List Change := []
  curXid : Nat := 0

inductive Reaction where
  | next (c : Consumer)
  | persist (c : Consumer) (lsn : LSN)
  | stop (err : WalError)

namespace Consumer

/-- `resolveStartLSN`: without a checkpoint the slot decides. -/
def resolveStartLSN (db : Database) : LSN := db.checkpoint.getD 0

/-- The head of `Run` on a new consumer. -/
def run (db : Database) : Consumer := { durable := resolveStartLSN db }

def handleRelation (c : Consumer) (m : RelationMessage) : Except WalError Consumer :=
  let accept := { c with rels := c.rels.insert m.relationID m.relationMeta }
  match c.rels.lookup m.relationID with
  | some prev =>
      if prev.fingerprint ≠ fingerprintRelation m then
        .error (.schemaDrift m.schema m.relationName m.relationID)
      else .ok accept
  | none => .ok accept

def rel (c : Consumer) (id : Nat) : Except WalError RelationMeta :=
  match c.rels.lookup id with
  | some rel => .ok rel
  | none => .error (.unknownRelation id)

def decode (c : Consumer) (types : Types) (m : RowMessage) : Except WalError Change :=
  (c.rel m.relationID).bind (m.decode types)

def handle (types : Types) (c : Consumer) : LogicalMessage → Reaction
  | .relation m =>
      match c.handleRelation m with
      | .ok c' => .next c'
      | .error err => .stop err
  | .begin xid => .next { c with pending := [], curXid := xid }
  | .row m =>
      match c.decode types m with
      | .ok ch => .next { c with pending := c.pending ++ [ch] }
      | .error err => .stop err
  | .commit commitLSN transactionEndLSN =>
      let lsn := if transactionEndLSN = 0 then commitLSN else transactionEndLSN
      .persist { c with pending := c.pending.map fun ch => { ch with commitLSN := lsn } } lsn
  | .other => .next c

/-- What `persist` sends for the pending changes; `none` when a row cannot be
marshalled. -/
def stored (exotic : Value → Option Json) (c : Consumer) : Option (List StoredChange) :=
  c.pending.mapM (Change.store exotic)

/-- The rest of `persistAndAck` and of the commit case, once `persist` returned. -/
def acknowledge (c : Consumer) (lsn : LSN) : Consumer := { c with durable := lsn, pending := [] }

theorem handleRelation_ok {c c' : Consumer} {m : RelationMessage}
    (accepted : c.handleRelation m = .ok c') :
    c' = { c with rels := c.rels.insert m.relationID m.relationMeta } := by
  unfold handleRelation at accepted
  split at accepted
  · split at accepted
    · cases accepted
    · exact (Except.ok.inj accepted).symm
  · exact (Except.ok.inj accepted).symm

/-- **No remapping.**  As long as a session runs, a relation number keeps the
fingerprint it was first announced with. -/
theorem handleRelation_keeps {c c' : Consumer} {m : RelationMessage}
    (accepted : c.handleRelation m = .ok c') {id : Nat} {known : RelationMeta}
    (found : c.rels.lookup id = some known) :
    ∃ now, c'.rels.lookup id = some now ∧ now.fingerprint = known.fingerprint := by
  rw [handleRelation_ok accepted]
  by_cases same : id = m.relationID
  · subst same
    refine ⟨m.relationMeta, by simp, ?_⟩
    simp only [handleRelation, found] at accepted
    split at accepted
    · cases accepted
    · next same => exact (not_not.1 same).symm
  · exact ⟨known, by simp [same, found], rfl⟩

theorem decode_of_announced {c : Consumer} {m : RowMessage} {rel : RelationMeta}
    (found : c.rels.lookup m.relationID = some rel) (types : Types) :
    c.decode types m = m.decode types rel := by
  rw [decode, Consumer.rel, found]
  rfl

end Consumer

end Tether.Wal
