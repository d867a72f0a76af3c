/-
# Tether.Engine.Pipeline — from the source table to a stream's cache

The machines of the other modules are put together: the source database with its slot
and the consumer that may crash (`Durability`), `change_log` and the ticks that read
it (`FanOut`), and one stream with a session beside it (`Subscribe`).  They meet in
two places: the durable transaction of the consumer adds the rows that ticks read, and
the row a tick has read is the change that fan-out applies to the stream.

A source transaction changes the table of the shape and any other table; for each of
its rows pgoutput sends a message, the consumer decodes and stores it, and a tick reads
it back (`Ships`).  The stream is created at some moment by a first subscription, in the
three steps of `subscribeShape`: `Take`, `LoadSnapshot` and the registration, between
which ticks go on.

`Replica` is what all of this is for: a history of row operations and a count of how
many of them are shown.  The pipeline is a `Replica` (`stream_refines_replica`) in the
runs whose first subscription joins in time (`Joins`): `Take` reads the matching rows of
the table, in a form that key and filter read as that of `change_log`, and until the
registration no change past its position is dispatched.  Then the stream's rows are the
matching rows of the table after the first `shown` operations, `shown` never goes back,
and it is all of them once nothing is on its way.
-/
import Mathlib.Data.List.ReduceOption
import Tether.Engine.FanOut
import Tether.Engine.Subscribe
import Tether.Lib.Simulation
import Tether.Shape.LiveForm
import Tether.Wal.Durability

namespace Tether.Pipeline

open Tether.Lib Tether.Wal Tether.Shape Tether.Durability

set_option autoImplicit false

variable {C : Type}

/-! ## The abstract replica -/

/-- A table, the operations on it so far (`none` for rows of other tables) and how many
of them the replica shows. -/
structure Replica (rel : Relation) where
  start : Table rel
  ops : List (Option RowOp)
  shown : Nat
  bound : shown ≤ ops.length

namespace Replica

variable {rel : Relation}

/-- The table after the first `k` operations. -/
def tableAt (start : Table rel) (ops : List (Option RowOp)) (k : Nat) : Option (Table rel) :=
  rel.machine.run start (ops.take k).reduceOption

/-- `commit` adds operations, `show` moves the replica forward. -/
inductive Event where
  | commit (ops : List (Option RowOp))
  | show (k : Nat)

def step (r : Replica rel) : Event → Option (Replica rel)
  | .commit ops =>
      if (tableAt r.start (r.ops ++ ops) (r.ops ++ ops).length).isSome then
        some { r with
          ops := r.ops ++ ops
          bound := r.bound.trans (by rw [List.length_append]; exact Nat.le_add_right _ _) }
      else none
  | .show k =>
      if h : r.shown ≤ k ∧ k ≤ r.ops.length then some { r with shown := k, bound := h.2 } else none

def machine (rel : Relation) : Machine (Replica rel) Event where
  init r := r.ops = []
  step := step

end Replica

/-! ## The composed machine -/

/-- A shape, the table it is a view of, and what is known about how its rows travel. -/
structure Plan (C : Type) where
  types : Types
  exotic : Value → Option Json
  rel : Relation
  defn : Definition C
  filter : Filter
  fingerprint : String
  keyed : defn.withDefaults.primaryKey = rel.primaryKey
  distinct : rel.DistinctKeys
  name : String
  key : String
  resumeAt : Int
  bufSize : Int

/-- What comes back of the value would come back as it is. -/
def Lands (exotic : Value → Option Json) (v : Value) : Prop :=
  (v.readBack exotic).readBack exotic = v.readBack exotic

/-- What pgoutput sends for one row.  A row of the shape's table is decoded to a change
that, read back from `change_log`, carries the operation. -/
def Ships (plan : Plan C) : Option RowOp → Item → Prop
  | some op, item => ∃ ch, item.2.decode plan.types item.1.relationMeta = .ok ch ∧
      tableMatch plan.defn.withDefaults ch = true ∧
      ch.relationFingerprint = plan.fingerprint ∧
      Carries plan.rel op (ch.viaChangeLog plan.exotic) ∧
      ∀ v, ch.Holds v → Lands plan.exotic v
  | none, item => ∀ ch, item.2.decode plan.types item.1.relationMeta = .ok ch →
      tableMatch plan.defn.withDefaults ch = false

/-- A source transaction with the operations its messages stand for. -/
structure Commit (plan : Plan C) where
  txn : Txn
  ops : List (Option RowOp)
  ships : List.Forall₂ (Ships plan) ops txn.body
  parses : txn.endLSN < 2 ^ 64

/-- `setup.inst` is the instance as it was loaded, `base` the number of operations the
snapshot held. -/
structure Stream (C : Type) where
  setup : Subscribe.Setup C
  state : Subscribe.State C
  base : Nat

/-- Where the first subscription is in `subscribeShape`. -/
inductive Joining (C : Type) where
  | idle
  | taken (lsn : LSN) (rows : List Row) (base : Nat)
  | loaded (inst : Instance C) (lsn : LSN) (base : Nat)

/-- The position of the snapshot, while its instance is not registered. -/
def Joining.window : Joining C → Option LSN
  | .idle => none
  | .taken lsn _ _ | .loaded _ lsn _ => some lsn

/-- `position` is how far the write-ahead log is known to reach; `ops` and `dispatched` are
ghosts: the operations of all commits, and what `dispatchChange` was called with. -/
structure State (plan : Plan C) where
  start : Table plan.rel
  table : Table plan.rel
  ops : List (Option RowOp) := []
  position : LSN := 0
  wal : Durability.State := Durability.initial
  lastID : Nat := 0
  batch : Option (List LogRow) := none
  dispatched : List (Nat × Change) := []
  joining : Joining C := .idle
  stream : Option (Stream C) := none

inductive Event (plan : Plan C) where
  | commit (c : Commit plan)
  /-- A step of the consumer or of the database, other than a commit. -/
  | wal (e : Durability.Event)
  /-- `Take` of a first subscription returns. -/
  | take (lsn : LSN) (rows : List Row)
  | load
  /-- The instance is registered. -/
  | register
  | tick
  | tickFails
  | row
  | stop
  /-- A step of the session, of fan-out inside `dispatchChange`, or of `WritePump`. -/
  | live (e : Subscribe.Ev)

/-- `dispatchChange` has returned. -/
def Work.isIdle : Subscribe.Work → Bool
  | .idle => true
  | _ => false

section Pipeline

variable {plan : Plan C}

/-- Fan-out is not inside `dispatchChange`. -/
def State.idle (s : State plan) : Bool := s.stream.all fun st => Work.isIdle st.state.work

def Plan.setup (plan : Plan C) (inst : Instance C) : Subscribe.Setup C :=
  ⟨inst, plan.name, plan.key, plan.resumeAt, plan.bufSize, plan.exotic⟩

/-- The stream of a new instance, before any session subscribed to it. -/
def Plan.opened (plan : Plan C) (inst : Instance C) (base : Nat) : Stream C :=
  ⟨plan.setup inst, (plan.setup inst).start, base⟩

def Stream.step (st : Stream C) (e : Subscribe.Ev) : Option (Stream C) :=
  (Subscribe.step st.setup st.state e).map fun state => { st with state }

/-- A step of the stream that fan-out does not start. -/
def Stream.liveStep (st : Stream C) : Subscribe.Ev → Option (Stream C)
  | .copy _ => none
  | e => st.step e

/-- `dispatchChange` starts on a change; without a stream there is nothing to do. -/
def State.dispatch (s : State plan) (ch : Change) : Option (Option (Stream C)) :=
  match s.stream with
  | none => some none
  | some st => (st.step (.copy ch)).map some

def step [LSNText] (s : State plan) : Event plan → Option (State plan)
  | .commit c =>
      if s.position < c.txn.endLSN then do
        let table ← plan.rel.machine.run s.table c.ops.reduceOption
        let wal ← Durability.step plan.types plan.exotic s.wal (.source c.txn)
        return { s with table, wal, ops := s.ops ++ c.ops, position := c.txn.endLSN }
      else none
  | .wal (.source _) => none
  | .wal e => (Durability.step plan.types plan.exotic s.wal e).map fun wal => { s with wal }
  | .take lsn rows =>
      match s.joining with
      | .idle =>
          -- the position that `Take` reads is not before a commit whose rows can be seen
          if s.stream.isNone ∧ s.position ≤ lsn then
            some { s with position := lsn, joining := .taken lsn rows s.ops.length }
          else none
      | _ => none
  | .load =>
      match s.joining with
      | .taken lsn rows base =>
          match (Instance.start plan.defn plan.filter).loadSnapshot lsn (rows.map some) with
          | (_, .error _) => some { s with joining := .idle }
          | (inst, .ok _) => some { s with joining := .loaded inst lsn base }
      | _ => none
  | .register =>
      match s.joining with
      | .loaded inst _ base =>
          some { s with joining := .idle, stream := some (plan.opened inst base) }
      | _ => none
  | .tick =>
      match s.batch with
      | none =>
          if s.idle then
            some { s with batch := some (s.wal.db.rows.filter fun r => s.lastID < r.id) }
          else none
      | some _ => none
  | .tickFails => if s.idle ∧ s.batch = none then some s else none
  | .row =>
      match s.batch with
      | some (r :: rest) =>
          match r.readBack with
          | some ch =>
              (s.dispatch ch).map fun stream =>
                { s with
                  stream, lastID := r.id, batch := some rest
                  dispatched := s.dispatched ++ [(r.id, ch)] }
          | none => if s.idle then some { s with lastID := r.id, batch := none } else none
      | _ => none
  | .stop => if s.idle ∧ s.batch.isSome then some { s with batch := none } else none
  | .live e => s.stream.bind fun st => (st.liveStep e).map fun st => { s with stream := some st }

def machine [LSNText] (plan : Plan C) : Machine (State plan) (Event plan) where
  init s := ∃ table, s = { start := table, table := table }
  step := step

/-- **The first subscription joins in time**: `Take` reads the rows of the table, steady
ones, and no change of the table past its position is dispatched until the instance is
registered. -/
def Joins [LSNText] (s : State plan) : Event plan → Prop
  | .take _ rows =>
      ((rows.map (Row.liveForm plan.exotic) : List Row) : Multiset Row) =
          (s.table.visible plan.filter).val ∧
        ∀ r ∈ rows, SteadyRow plan.exotic plan.defn.withDefaults.primaryKey plan.filter r
  | .row => ∀ lsn ∈ s.joining.window, ∀ rows ∈ s.batch, ∀ r ∈ rows.head?, ∀ ch ∈ r.readBack,
      tableMatch plan.defn.withDefaults ch = true → ch.commitLSN ≤ lsn
  | _ => True

instance [LSNText] (s : State plan) : (e : Event plan) → Decidable (Joins s e)
  | .take _ _ => inferInstanceAs (Decidable (_ ∧ _))
  | .row => inferInstanceAs (Decidable (∀ lsn ∈ s.joining.window, ∀ rows ∈ s.batch,
      ∀ r ∈ rows.head?, ∀ ch ∈ r.readBack, _ → _))
  | .commit _ | .wal _ | .load | .register | .tick | .tickFails | .stop | .live _ =>
      .isTrue trivial

/-! ## What the pipeline shows -/

/-- The change that fan-out has passed to the stream and not applied yet. -/
def Work.waiting : Subscribe.Work → Option Change
  | .copied ch _ => some ch
  | _ => none

/-- The operations in the cache: those of the snapshot, and those dispatched and
applied. -/
def Stream.shown (st : Stream C) (dispatched : Nat) : Nat :=
  max st.base (dispatched - (Work.waiting st.state.work).toList.length)

def State.shown (s : State plan) : Nat := s.stream.elim 0 fun st => st.shown s.dispatched.length

/-- Every transaction is in `change_log`, every row of it was dispatched, and the last
dispatch has returned. -/
structure State.Quiet (s : State plan) : Prop where
  persisted : ∀ t ∈ s.wal.txns, s.wal.Holds plan.types plan.exotic t
  read : ∀ r ∈ s.wal.db.rows, r.id ≤ s.lastID
  idle : s.idle = true

instance (w : Durability.State) (t : Txn) : Decidable (w.Holds plan.types plan.exotic t) :=
  inferInstanceAs (Decidable (_ ∧ _))

instance (s : State plan) : Decidable s.Quiet :=
  decidable_of_iff ((∀ t ∈ s.wal.txns, s.wal.Holds plan.types plan.exotic t) ∧
      (∀ r ∈ s.wal.db.rows, r.id ≤ s.lastID) ∧ s.idle = true)
    ⟨fun ⟨persisted, read, idle⟩ => ⟨persisted, read, idle⟩,
      fun quiet => ⟨quiet.persisted, quiet.read, quiet.idle⟩⟩

/-- The stream's rows, as JSON shows them, are the matching rows of the table after the
operations shown: all of them when nothing is on its way. -/
structure State.Shows (s : State plan) : Prop where
  rows : ∀ st, s.stream = some st → ∃ t, Replica.tableAt s.start s.ops s.shown = some t ∧
    st.state.inst.materialized.map (Row.liveForm plan.exotic) = (t.visible plan.filter).val
  current : s.stream.isSome → s.Quiet → s.shown = s.ops.length ∧
    Replica.tableAt s.start s.ops s.shown = some s.table

/-! ## A row on its way -/

/-- What `persist` wrote, a tick reads back. -/
theorem readBack_of_store [LSNText] {exotic : Value → Option Json} {ch : Change}
    {stored : StoredChange}
    (written : ch.store exotic = some stored) {lsn : LSN} (parses : lsn < 2 ^ 64) (xid seq : Nat) :
    LogEntry.readBack ⟨lsn, xid, seq, stored⟩ =
      some { ch.viaChangeLog exotic with commitLSN := lsn } := by
  have rows : ∀ {row : Option Row} {out : Option (KeyMap String Json)},
      (row.elim (some none) fun r => (r.marshal exotic).map some) = some out →
        decodeJSONMap out = row.map (Row.liveForm exotic) := by
    intro row out marshalled
    cases row with
    | none =>
        cases marshalled
        rfl
    | some r =>
        simp only [Option.elim, Row.marshal] at marshalled
        split at marshalled
        · cases marshalled
          simp only [decodeJSONMap, Option.map_some, KeyMap.mapValues_mapValues]
          rfl
        · cases marshalled
  obtain ⟨old, oldStored, rest⟩ := Option.bind_eq_some_iff.1 written
  obtain ⟨new, newStored, rest⟩ := Option.bind_eq_some_iff.1 rest
  cases rest
  simp only [LogEntry.readBack, LSNText.parse_string parses, Option.map_some, rows oldStored,
    rows newStored]
  rfl

/-- The row messages of the transactions, each with the position of its transaction. -/
def items (txns : List Txn) : List (LSN × Item) :=
  txns.flatMap fun t => t.body.map fun item => (t.endLSN, item)

theorem items_append (txns txns' : List Txn) : items (txns ++ txns') = items txns ++ items txns' :=
  List.flatMap_append

/-- The entry is what `persist` wrote for the message. -/
def Written (plan : Plan C) (e : LogEntry) (p : LSN × Item) : Prop :=
  e.lsn = p.1 ∧ storedItem plan.types plan.exotic p.2 = some e.change

theorem written_entries {t : Txn} (storable : (t.stored plan.types plan.exotic).isSome) :
    List.Forall₂ (Written plan) (t.entries plan.types plan.exotic)
      (t.body.map fun item => (t.endLSN, item)) := by
  obtain ⟨changes, stored⟩ := Option.isSome_iff_exists.1 storable
  have numbered : ∀ {body : List Item} {changes : List StoredChange} (seq : Nat),
      List.Forall₂ (fun item c => storedItem plan.types plan.exotic item = some c) body changes →
        List.Forall₂ (Written plan) (logEntries t.endLSN t.xid seq changes)
          (body.map fun item => (t.endLSN, item)) := by
    intro body changes seq each
    induction each generalizing seq with
    | nil => exact .nil
    | cons here _ ih => exact .cons ⟨rfl, here⟩ (ih (seq + 1))
  rw [Txn.entries, stored, Option.getD_some]
  exact numbered 0 (mapM_eq_some_iff.1 stored)

theorem written_flatMap {txns : List Txn}
    (storable : ∀ t ∈ txns, (t.stored plan.types plan.exotic).isSome) :
    List.Forall₂ (Written plan) (txns.flatMap (Txn.entries plan.types plan.exotic))
      (items txns) := by
  induction txns with
  | nil => exact .nil
  | cons t txns ih =>
      exact List.rel_append (written_entries (storable t List.mem_cons_self))
        (ih fun t' member => storable t' (List.mem_cons_of_mem _ member))

/-- The change that was dispatched for a message. -/
def DispatchedFor (plan : Plan C) (p : LSN × Item) (d : Nat × Change) : Prop :=
  ∃ ch, p.2.2.decode plan.types p.2.1.relationMeta = .ok ch ∧
    d.2 = { ch.viaChangeLog plan.exotic with commitLSN := p.1 }

theorem Written.dispatched [LSNText] {e : LogEntry} {p : LSN × Item} (written : Written plan e p)
    (parses : p.1 < 2 ^ 64) {d : Nat × Change} (read : e.readBack = some d.2) :
    DispatchedFor plan p d := by
  obtain ⟨position, stored⟩ := written
  obtain ⟨ch, decoded, written⟩ := Option.bind_eq_some_iff.1 stored
  have ok : p.2.2.decode plan.types p.2.1.relationMeta = .ok ch := by
    cases result : p.2.2.decode plan.types p.2.1.relationMeta with
    | error err =>
        rw [result] at decoded
        cases decoded
    | ok ch' =>
        rw [result] at decoded
        exact congrArg Except.ok (Option.some.inj decoded)
  refine ⟨ch, ok, ?_⟩
  obtain ⟨lsn, xid, seq, change⟩ := e
  dsimp only at position written
  subst position
  rw [readBack_of_store written parses xid seq] at read
  exact (Option.some.inj read).symm

/-! ## One change and the stream -/

section Change

variable {exotic : Value → Option Json} {rel : Relation} {d : Definition C} {f : Filter}
  {n : LSN} {fp : String} {inst : Instance C} {t t' : Table rel} {ch : Change}

/-- The gate, or another table. -/
theorem applyBegin_ignored (reflects : Reflects exotic d f n fp inst t)
    (ignored : ch.commitLSN ≠ 0 ∧ ch.commitLSN ≤ n ∨ tableMatch d.withDefaults ch = false) :
    inst.applyBegin ch = (inst, .ok none) := by
  have live : inst.log.halted = none := reflects.mirrors.live
  have defn : inst.defn = d.withDefaults := reflects.mirrors.defn
  rcases ignored with ⟨nonzero, held⟩ | foreign
  · have gated : inst.skips ch = true := by
      have loaded : inst.hasSnapshot = true := reflects.mirrors.loaded
      have position : inst.snapshotLSN = n := reflects.mirrors.position
      simp [Instance.skips, loaded, position, nonzero, held]
    simp [Instance.applyBegin, live, gated]
  · simp [Instance.applyBegin, live, defn, foreign]

theorem applyBegin_carried (reflects : Reflects exotic d f n fp inst t)
    (distinct : rel.DistinctKeys) (keyed : d.withDefaults.primaryKey = rel.primaryKey)
    {op : RowOp} (stepped : t.step op = some t') (carried : Carries rel op ch)
    (onLive : ch.Live exotic) (mine : tableMatch d.withDefaults ch = true)
    (later : n < ch.commitLSN) (stamped : ch.relationFingerprint = fp) :
    Reflects exotic d f n fp (inst.applyBegin ch).1 t' := by
  have live : inst.log.halted = none := reflects.mirrors.live
  have own : tableMatch inst.defn ch = true :=
    (show inst.defn = d.withDefaults from reflects.mirrors.defn) ▸ mine
  have passes : inst.skips ch = false := by
    have position : inst.snapshotLSN = n := reflects.mirrors.position
    simp [Instance.skips, position, later]
  have known : inst.fingerprint = "" ∨ inst.fingerprint = fp := reflects.mirrors.fingerprint
  obtain ⟨inst', accepted⟩ : ∃ inst', inst.checkFingerprint fp = .ok inst' := by
    unfold Instance.checkFingerprint
    rcases known with none | same
    · split_ifs <;> exact ⟨_, rfl⟩
    · simp only [same, ne_eq, not_true_eq_false, if_false]
      split_ifs <;> exact ⟨_, rfl⟩
  have settled := checkFingerprint_settles known accepted
  obtain ⟨fp', rfl⟩ := Instance.checkFingerprint_ok accepted
  obtain ⟨decision, decided, after⟩ :=
    reflects.carried distinct keyed stepped carried onLive settled
  have same : ({ inst with fingerprint := fp' } : Instance C).project ch = .ok decision := decided
  have begun : (inst.applyBegin ch).1 =
      { inst with fingerprint := fp', cache := decidedCache inst.cache decision } := by
    simp only [Instance.applyBegin, live, own, passes, stamped, accepted, same, Bool.not_true,
      Bool.false_eq_true, if_false]
    cases decision <;> rfl
  rw [begun]
  exact after

end Change

/-- A step of the stream between two dispatches: nothing, the cache write of the change
that waits, or the append of an event. -/
inductive Stream.Moves (st st' : Stream C) : Prop where
  | still : st'.state.inst = st.state.inst →
      Work.waiting st'.state.work = Work.waiting st.state.work → Moves st st'
  | begins {ch : Change} : Work.waiting st.state.work = some ch →
      st'.state.inst = (st.state.inst.applyBegin ch).1 →
      Work.waiting st'.state.work = none → Moves st st'
  | appends {log : Log} : st'.state.inst = { st.state.inst with log := log } →
      log.halted = st.state.inst.log.halted →
      Work.waiting st'.state.work = Work.waiting st.state.work → Moves st st'

theorem Stream.liveStep_eq {st st' : Stream C} {e : Subscribe.Ev}
    (stepped : st.liveStep e = some st') :
    ∃ state, Subscribe.step st.setup st.state e = some state ∧ st' = { st with state } := by
  cases e with
  | copy ch => cases stepped
  | _ =>
      obtain ⟨state, ran, rfl⟩ := Option.map_eq_some_iff.1 stepped
      exact ⟨state, ran, rfl⟩

theorem Stream.liveStep_moves {st st' : Stream C} {e : Subscribe.Ev}
    (stepped : st.liveStep e = some st') :
    st'.base = st.base ∧ st'.setup = st.setup ∧ st.Moves st' := by
  obtain ⟨state, ran, rfl⟩ := Stream.liveStep_eq stepped
  refine ⟨rfl, rfl, ?_⟩
  cases e with
  | copy ch => cases stepped
  | connect =>
      simp only [Subscribe.step] at ran
      split at ran
      · cases ran
      · cases ran
        exact .still rfl rfl
  | pump =>
      obtain ⟨conn, -, rfl⟩ := Option.map_eq_some_iff.1 ran
      exact .still rfl rfl
  | session =>
      simp only [Subscribe.step, Subscribe.sessionStep] at ran
      repeat' split at ran
      all_goals first
        | cases ran
          exact .still rfl rfl
        | cases ran
  | fanOut =>
      simp only [Subscribe.step, Subscribe.fanOutStep] at ran
      split at ran
      · cases ran
      · next ch listed work =>
          have waits : Work.waiting st.state.work = some ch := by rw [work]; rfl
          split at ran
          · next inst err begun =>
              cases ran
              exact .begins waits (by rw [begun]) rfl
          · next inst begun =>
              cases ran
              exact .begins waits (by rw [begun]) rfl
          · next inst m begun =>
              cases ran
              exact .begins waits (by rw [begun]) rfl
      · next m listed work =>
          have none : Work.waiting st.state.work = none := by rw [work]; rfl
          split at ran
          · cases ran
            exact .still rfl none.symm
          · next ev log appended =>
              cases ran
              refine .appends rfl ?_ none.symm
              unfold Log.append at appended
              split at appended
              · cases appended
              · cases appended
                rfl
      · next ev listed work =>
          cases ran
          refine .still rfl ?_
          rw [work]
          dsimp only
          split <;> rfl
      · next ev work =>
          cases ran
          exact .still rfl (by rw [work]; rfl)
      · next err listed work =>
          cases ran
          exact .still rfl (by rw [work]; rfl)

/-! ## The invariant -/

def State.fanOut (s : State plan) : FanOut.State := ⟨s.wal.db, s.lastID, s.batch, s.dispatched⟩

/-- A snapshot at `n` that holds the first `base` operations. -/
structure Held (s : State plan) (base : Nat) (n : LSN) : Prop where
  within : base ≤ s.ops.length
  held : ∀ i p, (items s.wal.txns)[i]? = some p → (p.1 ≤ n ↔ i < base)
  behind : n ≤ s.position

/-- What is known of the stream: which rows its snapshot held, which change waits, and
that the cache is the table after the operations shown. -/
structure StreamInv (s : State plan) (st : Stream C) (n : LSN) : Prop
    extends Held s st.base n where
  waiting : ∀ ch, Work.waiting st.state.work = some ch →
    ∃ id, s.dispatched.getLast? = some (id, ch)
  reflects : ∃ t, Replica.tableAt s.start s.ops (st.shown s.dispatched.length) = some t ∧
    Reflects plan.exotic plan.defn plan.filter n plan.fingerprint st.state.inst t

/-- What is known of a snapshot that is not yet registered: the operations past it that were
dispatched are those of other tables. -/
structure Pending (s : State plan) (base : Nat) (n : LSN) : Prop extends Held s base n where
  missed : ∀ i, base ≤ i → i < s.dispatched.length → s.ops[i]? = some none

/-- The table that the snapshot shows. -/
def JoinInv (s : State plan) : Joining C → Prop
  | .idle => True
  | .taken n rows base => Pending s base n ∧ ∃ t, Replica.tableAt s.start s.ops base = some t ∧
      ((rows.map (Row.liveForm plan.exotic) : List Row) : Multiset Row) =
        (t.visible plan.filter).val ∧
      ∀ r ∈ rows, SteadyRow plan.exotic plan.defn.withDefaults.primaryKey plan.filter r
  | .loaded inst n base => Pending s base n ∧ ∃ t, Replica.tableAt s.start s.ops base = some t ∧
      Reflects plan.exotic plan.defn plan.filter n plan.fingerprint inst t

/-- The history and how much of it was dispatched. -/
structure History [LSNText] (s : State plan) : Prop where
  durable : ∃ n, Durability.Inv plan.types plan.exotic s.wal n
  follows : ∃ c, FanOut.Follows s.fanOut c
  parses : ∀ t ∈ s.wal.txns, t.endLSN < 2 ^ 64
  positions : ∀ t ∈ s.wal.txns, t.endLSN ≤ s.position
  ships : List.Forall₂ (Ships plan) s.ops ((items s.wal.txns).map Prod.snd)
  table : plan.rel.machine.run s.start s.ops.reduceOption = some s.table

structure Inv [LSNText] (s : State plan) : Prop extends History s where
  joining : JoinInv s s.joining
  alone : s.joining.window ≠ none → s.stream = none
  stream : ∀ st, s.stream = some st → ∃ n, StreamInv s st n

variable {s t : State plan}

theorem mem_items {txns : List Txn} {p : LSN × Item} (member : p ∈ items txns) :
    ∃ t ∈ txns, p.1 = t.endLSN := by
  obtain ⟨t, here, inside⟩ := List.mem_flatMap.1 member
  obtain ⟨item, -, rfl⟩ := List.mem_map.1 inside
  exact ⟨t, here, rfl⟩

theorem dispatchedFor_of_written [LSNText] {done : List (Nat × LogEntry)} {sent : List (LSN × Item)}
    {ds : List (Nat × Change)} (written : List.Forall₂ (fun r => Written plan r.2) done sent)
    (read : List.Forall₂ (fun r d => d.1 = r.1 ∧ r.2.readBack = some d.2) done ds)
    (parses : ∀ p ∈ sent, p.1 < 2 ^ 64) : List.Forall₂ (DispatchedFor plan) sent ds := by
  induction written generalizing ds with
  | nil =>
      cases read
      exact .nil
  | cons here _ ih =>
      cases read with
      | cons back later =>
          exact .cons (here.dispatched (parses _ List.mem_cons_self) back.2)
            (ih later fun p member => parses p (List.mem_cons_of_mem _ member))

/-- When every transaction is held, those that `change_log` does not have are empty. -/
theorem items_drop_of_holds {n : Nat} (durable : Durability.Inv plan.types plan.exotic s.wal n)
    (persisted : ∀ t ∈ s.wal.txns, s.wal.Holds plan.types plan.exotic t) :
    items (s.wal.txns.drop n) = [] := by
  refine List.flatMap_eq_nil_iff.2 fun t late => ?_
  obtain ⟨storable, own⟩ := persisted t (List.mem_of_mem_drop late)
  have none : s.wal.db.entries.filter (fun e => e.lsn = t.endLSN) = [] := by
    refine List.filter_eq_nil_iff.2 fun e member => ?_
    rw [durable.logged.log] at member
    obtain ⟨t', early, entry⟩ := List.mem_flatMap.1 member
    have increasing := durable.increasing
    rw [← List.take_append_drop n s.wal.txns] at increasing
    have before := (List.pairwise_append.1 increasing).2.2 t' early t late
    rw [Txn.lsn_of_mem_entries entry]
    simpa using before.ne
  rw [none] at own
  have empty := (written_entries storable).length_eq
  rw [← own, List.length_nil] at empty
  exact List.length_eq_zero_iff.1 empty.symm

/-- What was dispatched is a first part of the messages, in order; all of them when
nothing is on its way. -/
theorem History.dispatched [LSNText] (inv : History s) :
    List.Forall₂ (DispatchedFor plan) ((items s.wal.txns).take s.dispatched.length)
        s.dispatched ∧
      s.dispatched.length ≤ (items s.wal.txns).length ∧
      (s.Quiet → s.dispatched.length = (items s.wal.txns).length) := by
  obtain ⟨n, durable⟩ := inv.durable
  obtain ⟨c, follows⟩ := inv.follows
  obtain ⟨rest, rows, -, ahead, -, -⟩ := c.split
  have written := written_flatMap durable.logged.storable
  rw [← durable.logged.log] at written
  -- the rows behind the cursor are the first entries of `change_log`
  have entries : s.wal.db.entries = c.done.map Prod.snd ++ rest.map Prod.snd := by
    rw [← List.map_append, ← rows, follows.db.rows]
    simp [FanOut.numbered, Database.entries, State.fanOut, Function.comp_def]
  have early : items s.wal.txns =
      items (s.wal.txns.take n) ++ items (s.wal.txns.drop n) := by
    rw [← items_append, List.take_append_drop]
  have count : c.done.length = s.dispatched.length := follows.done.length_eq
  have total : s.wal.db.entries.length = (items (s.wal.txns.take n)).length := written.length_eq
  have within : s.dispatched.length ≤ s.wal.db.entries.length := by
    rw [entries, List.length_append, List.length_map, count]
    exact Nat.le_add_right _ _
  refine ⟨?_, ?_, fun quiet => ?_⟩
  · have first := List.forall₂_take s.dispatched.length written
    rw [entries, List.take_append_of_le_length (by rw [List.length_map, count]),
      List.take_of_length_le (by rw [List.length_map, count]),
      List.forall₂_map_left_iff] at first
    rw [early, List.take_append_of_le_length (total ▸ within)]
    refine dispatchedFor_of_written first follows.done fun p member => ?_
    obtain ⟨t, here, same⟩ := mem_items (List.mem_of_mem_take member)
    rw [same]
    exact inv.parses t (List.mem_of_mem_take here)
  · rw [early, List.length_append, ← total]
    exact within.trans (Nat.le_add_right _ _)
  · have nothing : rest = [] := by
      refine List.eq_nil_iff_forall_not_mem.2 fun r member => ?_
      have stored : r ∈ s.wal.db.rows.map FanOut.numbered := by
        have listed : r ∈ c.rows := rows ▸ List.mem_append_right _ member
        rwa [follows.db.rows] at listed
      obtain ⟨row, here, rfl⟩ := List.mem_map.1 stored
      have past : c.lastID < row.id := ahead _ member
      rw [follows.last] at past
      exact absurd (quiet.read row here) (Nat.not_le.2 past)
    rw [early, items_drop_of_holds durable quiet.persisted, List.append_nil, ← total, entries,
      nothing, List.map_nil, List.append_nil, List.length_map, count]

/-! ## Positions in the history -/

theorem tableAt_append {rel : Relation} {start : Table rel} {ops : List (Option RowOp)} {k : Nat}
    (within : k ≤ ops.length) (more : List (Option RowOp)) :
    Replica.tableAt start (ops ++ more) k = Replica.tableAt start ops k := by
  rw [Replica.tableAt, List.take_append_of_le_length within, Replica.tableAt]

theorem tableAt_length {rel : Relation} (start : Table rel) (ops : List (Option RowOp)) :
    Replica.tableAt start ops ops.length = rel.machine.run start ops.reduceOption := by
  rw [Replica.tableAt, List.take_length]

theorem tableAt_succ {rel : Relation} {start t : Table rel} {ops : List (Option RowOp)} {i : Nat}
    {op : Option RowOp} (here : ops[i]? = some op) (before : Replica.tableAt start ops i = some t) :
    Replica.tableAt start ops (i + 1) = op.elim (some t) t.step := by
  rw [Replica.tableAt] at before
  rw [Replica.tableAt, List.take_add_one, here, Option.toList_some, List.reduceOption_append,
    Machine.run_append, before, Option.bind_some]
  cases op with
  | none => rfl
  | some op =>
      show (t.step op).bind some = t.step op
      cases t.step op <;> rfl

/-- What the whole history runs through, it runs through in part. -/
theorem tableAt_isSome {rel : Relation} {start final : Table rel} {ops : List (Option RowOp)}
    (ran : rel.machine.run start ops.reduceOption = some final) (k : Nat) :
    ∃ t, Replica.tableAt start ops k = some t := by
  rw [← List.take_append_drop k ops, List.reduceOption_append, Machine.run_append] at ran
  obtain ⟨t, first, -⟩ := Option.bind_eq_some_iff.1 ran
  exact ⟨t, first⟩

/-- The change dispatched last, with the operation and the message it is for. -/
theorem History.last [LSNText] (inv : History s) {id : Nat} {ch : Change}
    (last : s.dispatched.getLast? = some (id, ch)) :
    ∃ i op p, s.dispatched.length = i + 1 ∧ s.ops[i]? = some op ∧
      (items s.wal.txns)[i]? = some p ∧ Ships plan op p.2 ∧ DispatchedFor plan p (id, ch) := by
  obtain ⟨sent, bound, -⟩ := inv.dispatched
  obtain ⟨ds, split⟩ := List.getLast?_eq_some_iff.1 last
  have length : s.dispatched.length = ds.length + 1 := by rw [split, List.length_append]; rfl
  have inside : ds.length < (items s.wal.txns).length := by omega
  obtain ⟨count, each⟩ := List.forall₂_iff_get.1 inv.ships
  rw [List.length_map] at count
  refine ⟨ds.length, s.ops[ds.length], (items s.wal.txns)[ds.length], length,
    List.getElem?_eq_getElem _, List.getElem?_eq_getElem inside, ?_, ?_⟩
  · have ships := each ds.length (by omega) (by rw [List.length_map]; exact inside)
    simpa using ships
  · have dispatched := (List.forall₂_iff_get.1 sent).2 ds.length
      (by rw [List.length_take]; omega) (by omega)
    have own : s.dispatched.get ⟨ds.length, by omega⟩ = (id, ch) := by
      simp [split]
    rw [own] at dispatched
    simpa using dispatched

theorem carries_position {rel : Relation} {op : RowOp} {ch : Change} (carried : Carries rel op ch)
    (lsn : LSN) : Carries rel op { ch with commitLSN := lsn } := by
  cases op <;> exact carried

theorem live_viaChangeLog {exotic : Value → Option Json} {ch : Change}
    (lands : ∀ v, ch.Holds v → Lands exotic v) : (ch.viaChangeLog exotic).Live exotic := by
  have rows : ∀ row : Option Row, (∀ r ∈ row, ∀ col v, r.lookup col = some v → Lands exotic v) →
      (row.map (Row.liveForm exotic)).map (Row.liveForm exotic) =
        row.map (Row.liveForm exotic) := by
    intro row all
    cases row with
    | none => rfl
    | some r =>
        refine congrArg some (Finmap.ext_lookup fun col => ?_)
        rw [Row.lookup_liveForm, Row.lookup_liveForm]
        cases found : r.lookup col with
        | none => rfl
        | some v => exact congrArg some (all r rfl col v found)
  obtain ⟨old, new⟩ := Change.forall_holds.1 lands
  exact ⟨rows ch.old old, rows ch.new new⟩

/-! ## Steps of the stream -/

theorem Stream.shown_unwaiting {st : Stream C} (none : Work.waiting st.state.work = none)
    (dispatched : Nat) : st.shown dispatched = max st.base dispatched := by
  rw [Stream.shown, none]
  rfl

/-- What a change is to a stream loaded at `n` that shows `t`: one that the snapshot
holds, a row of another table, or the operation that leads to `t'`. -/
inductive Turn (plan : Plan C) (n : LSN) (ch : Change) (t t' : Table plan.rel) : Prop where
  | held : ch.commitLSN ≠ 0 → ch.commitLSN ≤ n → t' = t → Turn plan n ch t t'
  | foreign : tableMatch plan.defn.withDefaults ch = false → t' = t → Turn plan n ch t t'
  | carried (op : RowOp) : t.step op = some t' → Carries plan.rel op ch → ch.Live plan.exotic →
      tableMatch plan.defn.withDefaults ch = true → n < ch.commitLSN →
      ch.relationFingerprint = plan.fingerprint → Turn plan n ch t t'

theorem Turn.applyBegin {n : LSN} {ch : Change} {t t' : Table plan.rel} (turn : Turn plan n ch t t')
    {inst : Instance C}
    (reflects : Reflects plan.exotic plan.defn plan.filter n plan.fingerprint inst t) :
    Reflects plan.exotic plan.defn plan.filter n plan.fingerprint (inst.applyBegin ch).1 t' := by
  cases turn with
  | held nonzero inside same =>
      rw [applyBegin_ignored reflects (.inl ⟨nonzero, inside⟩), same]
      exact reflects
  | foreign other same =>
      rw [applyBegin_ignored reflects (.inr other), same]
      exact reflects
  | carried op stepped carried onLive mine later stamped =>
      exact applyBegin_carried reflects plan.distinct plan.keyed stepped carried onLive mine later
        stamped

/-- The change that waits is the next one after those shown. -/
theorem StreamInv.turn [LSNText] {st : Stream C} {n : LSN} (whole : History s)
    (inv : StreamInv s st n)
    {ch : Change} (waits : Work.waiting st.state.work = some ch) :
    ∃ i t t', s.dispatched.length = i + 1 ∧
      Replica.tableAt s.start s.ops (max st.base (i + 1)) = some t' ∧
      Reflects plan.exotic plan.defn plan.filter n plan.fingerprint st.state.inst t ∧
      Turn plan n ch t t' := by
  obtain ⟨id, last⟩ := inv.waiting ch waits
  obtain ⟨i, op, p, length, here, message, ships, ch₀, decoded, read⟩ := whole.last last
  obtain ⟨t, at_i, reflects⟩ := inv.reflects
  have before : st.shown s.dispatched.length = max st.base i := by
    rw [Stream.shown, waits, length]
    rfl
  dsimp only at read
  have position : ch.commitLSN = p.1 := by rw [read]
  have held := inv.held i p message
  rw [before] at at_i
  by_cases early : i < st.base
  · have nonzero : ch.commitLSN ≠ 0 := by
      obtain ⟨n', durable⟩ := whole.durable
      obtain ⟨t', member, same⟩ := mem_items (List.mem_of_getElem? message)
      rw [position, same]
      exact (durable.positive t' member).ne'
    rw [max_eq_left early.le] at at_i
    refine ⟨i, t, t, length, ?_, reflects, .held nonzero (position.le.trans (held.2 early)) rfl⟩
    rw [max_eq_left early]
    exact at_i
  · have late : st.base ≤ i := Nat.le_of_not_lt early
    have later : n < ch.commitLSN := position ▸ Nat.not_le.1 (mt held.1 early)
    rw [max_eq_right late] at at_i
    have next : Replica.tableAt s.start s.ops (max st.base (i + 1)) = op.elim (some t) t.step := by
      rw [max_eq_right (late.trans (Nat.le_succ i)), tableAt_succ here at_i]
    cases op with
    | none =>
        refine ⟨i, t, t, length, next, reflects, .foreign ?_ rfl⟩
        rw [read]
        exact ships ch₀ decoded
    | some op =>
        obtain ⟨ch₁, decoded₁, mine, stamped, carried, lands⟩ := ships
        obtain rfl : ch₀ = ch₁ := Except.ok.inj (decoded.symm.trans decoded₁)
        obtain ⟨t', after⟩ := tableAt_isSome whole.table (max st.base (i + 1))
        have stepped : t.step op = some t' := next.symm.trans after
        have onLive := live_viaChangeLog lands
        refine ⟨i, t, t', length, after, reflects, .carried op stepped ?_ ?_ ?_ later ?_⟩
        · rw [read]
          exact carries_position carried p.1
        · rw [read]
          exact ⟨onLive.old, onLive.new⟩
        · rw [read]
          exact mine
        · rw [read]
          exact stamped

/-- **The cache write.**  The change that waited moves the cache to the table after its
operation, or is one the snapshot holds. -/
theorem StreamInv.begins [LSNText] {st st' : Stream C} {n : LSN} (whole : History s)
    (inv : StreamInv s st n)
    {ch : Change} (waits : Work.waiting st.state.work = some ch)
    (begun : st'.state.inst = (st.state.inst.applyBegin ch).1)
    (done : Work.waiting st'.state.work = none) (base : st'.base = st.base) :
    StreamInv s st' n := by
  obtain ⟨i, t, t', length, after, reflects, turn⟩ := inv.turn whole waits
  refine ⟨base ▸ inv.toHeld, fun ch' waits' => ?_, t', ?_, begun ▸ turn.applyBegin reflects⟩
  · rw [done] at waits'
    cases waits'
  · rw [Stream.shown_unwaiting done, base, length]
    exact after

theorem StreamInv.live [LSNText] {st st' : Stream C} {n : LSN} {e : Subscribe.Ev}
    (whole : History s)
    (inv : StreamInv s st n) (stepped : st.liveStep e = some st') : StreamInv s st' n := by
  obtain ⟨base, -, moves⟩ := Stream.liveStep_moves stepped
  have shown : Work.waiting st'.state.work = Work.waiting st.state.work →
      st'.shown s.dispatched.length = st.shown s.dispatched.length := by
    intro same
    rw [Stream.shown, Stream.shown, base, same]
  have held : Held s st'.base n := base ▸ inv.toHeld
  cases moves with
  | begins waits begun done => exact inv.begins whole waits begun done base
  | still inst waiting =>
      refine ⟨held, waiting ▸ inv.waiting, ?_⟩
      rw [shown waiting, inst]
      exact inv.reflects
  | appends inst halted waiting =>
      refine ⟨held, waiting ▸ inv.waiting, ?_⟩
      obtain ⟨t, here, reflects⟩ := inv.reflects
      rw [shown waiting]
      exact ⟨t, here, reflects.congr inst (halted.trans reflects.mirrors.live)⟩

/-! ## Steps of the pipeline -/

theorem History.length [LSNText] (inv : History s) : s.ops.length = (items s.wal.txns).length := by
  rw [inv.ships.length_eq, List.length_map]

theorem History.dispatched_le [LSNText] (inv : History s) : s.dispatched.length ≤ s.ops.length :=
  inv.dispatched.2.1.trans_eq inv.length.symm

/-- Away from source commits only a durable transaction changes what others read. -/
theorem wal_step {types : Types} {exotic : Value → Option Json} {w w' : Durability.State}
    {e : Durability.Event} (other : ∀ t, e ≠ .source t)
    (stepped : Durability.step types exotic w e = some w') :
    w'.txns = w.txns ∧ (w'.db = w.db ∨
      ∃ x, w.inflight = some x ∧ w'.db = w.db.persist x.lsn x.xid x.changes) := by
  cases e with
  | source t => exact absurd rfl (other t)
  | start cursor =>
      simp only [Durability.step, Option.ite_none_right_eq_some, Option.some.injEq] at stepped
      obtain ⟨-, rfl⟩ := stepped
      exact ⟨rfl, .inl rfl⟩
  | deliver d =>
      obtain ⟨q, -, rest⟩ := Option.bind_eq_some_iff.1 stepped
      obtain ⟨⟨msg, q'⟩, -, rest⟩ := Option.bind_eq_some_iff.1 rest
      simp only [Durability.State.deliver] at rest
      repeat' split at rest
      all_goals first
        | cases rest
          exact ⟨rfl, .inl rfl⟩
        | cases rest
  | settle committed =>
      obtain ⟨x, flying, rest⟩ := Option.bind_eq_some_iff.1 stepped
      cases rest
      cases committed with
      | true => exact ⟨rfl, .inr ⟨x, flying, rfl⟩⟩
      | false => exact ⟨rfl, .inl rfl⟩
  | ack =>
      obtain ⟨q, -, rest⟩ := Option.bind_eq_some_iff.1 stepped
      split at rest
      · cases rest
        exact ⟨rfl, .inl rfl⟩
      · cases rest
  | status =>
      obtain ⟨q, -, rest⟩ := Option.bind_eq_some_iff.1 stepped
      split at rest
      · cases rest
        exact ⟨rfl, .inl rfl⟩
      · cases rest
        exact ⟨rfl, .inl rfl⟩
      · cases rest
  | stop =>
      obtain ⟨q, -, rest⟩ := Option.bind_eq_some_iff.1 stepped
      cases rest
      exact ⟨rfl, .inl rfl⟩

/-! ### The rest of the state as seen by the stream -/

theorem Held.congr {base : Nat} {n : LSN} (held : Held s base n) (ops : t.ops = s.ops)
    (txns : t.wal.txns = s.wal.txns) (position : s.position ≤ t.position) : Held t base n :=
  ⟨ops ▸ held.within, txns ▸ held.held, held.behind.trans position⟩

theorem StreamInv.congr {st : Stream C} {n : LSN} (inv : StreamInv s st n)
    (start : t.start = s.start) (ops : t.ops = s.ops) (txns : t.wal.txns = s.wal.txns)
    (position : s.position ≤ t.position) (dispatched : t.dispatched = s.dispatched) :
    StreamInv t st n := by
  refine ⟨inv.toHeld.congr ops txns position, dispatched ▸ inv.waiting, ?_⟩
  rw [start, ops, dispatched]
  exact inv.reflects

/-- A snapshot that is still pending shows the table it showed. -/
theorem JoinInv.mono {j : Joining C} (inv : JoinInv s j) (start : t.start = s.start)
    (pending : ∀ base n, Pending s base n → Pending t base n)
    (tables : ∀ k ≤ s.ops.length,
      Replica.tableAt s.start t.ops k = Replica.tableAt s.start s.ops k) : JoinInv t j := by
  have table : ∀ {base n table}, Pending s base n →
      Replica.tableAt s.start s.ops base = some table →
      Replica.tableAt t.start t.ops base = some table := by
    intro base n table held there
    rw [start, tables base held.within, there]
  cases j with
  | idle => trivial
  | taken n rows base =>
      obtain ⟨held, shown, there, rest⟩ := inv
      exact ⟨pending base n held, shown, table held there, rest⟩
  | loaded inst n base =>
      obtain ⟨held, shown, there, rest⟩ := inv
      exact ⟨pending base n held, shown, table held there, rest⟩

theorem JoinInv.congr {j : Joining C} (inv : JoinInv s j) (start : t.start = s.start)
    (ops : t.ops = s.ops) (txns : t.wal.txns = s.wal.txns) (position : s.position ≤ t.position)
    (dispatched : t.dispatched = s.dispatched) : JoinInv t j := by
  refine inv.mono start (fun base n held => ⟨held.toHeld.congr ops txns position, ?_⟩)
    fun k _ => by rw [ops]
  rw [ops, dispatched]
  exact held.missed

theorem inv_wal [LSNText] {e : Durability.Event} (inv : Inv s) (other : ∀ t, e ≠ .source t)
    {wal : Durability.State}
    (stepped : Durability.step plan.types plan.exotic s.wal e = some wal) :
    Inv { s with wal } := by
  obtain ⟨n, durable⟩ := inv.durable
  obtain ⟨txns, db⟩ := wal_step other stepped
  refine ⟨⟨Durability.inv_step durable stepped, ?_, txns ▸ inv.parses, txns ▸ inv.positions,
    txns ▸ inv.ships, inv.table⟩, inv.joining.congr rfl rfl txns le_rfl rfl, inv.alone,
    fun st here => ?_⟩
  · rcases db with same | ⟨x, flying, grown⟩
    · have kept : State.fanOut { s with wal } = s.fanOut := by rw [State.fanOut, same]; rfl
      rw [kept]
      exact inv.follows
    · obtain ⟨j, txn, -, at_j, ours⟩ := durable.inflight x flying
      have parses : x.lsn < 2 ^ 64 := ours.lsn ▸ inv.parses txn (List.mem_of_getElem? at_j)
      refine FanOut.exists_follows_step (e := .commit x.lsn x.xid x.changes) inv.follows ?_
      simp only [FanOut.step, if_pos parses, State.fanOut, grown]
  · obtain ⟨m, old⟩ := inv.stream st here
    exact ⟨m, old.congr rfl rfl txns le_rfl rfl⟩

/-- A commit is past every snapshot that was taken. -/
theorem Held.commit [LSNText] {base : Nat} {n : LSN} {c : Commit plan} (held : Held s base n)
    (whole : History s) (later : s.position < c.txn.endLSN)
    (new : items t.wal.txns =
      items s.wal.txns ++ c.txn.body.map fun item => (c.txn.endLSN, item))
    (ops : t.ops = s.ops ++ c.ops) (position : t.position = c.txn.endLSN) : Held t base n := by
  refine ⟨?_, fun i p at_i => ?_, position ▸ held.behind.trans later.le⟩
  · rw [ops, List.length_append]
    exact held.within.trans (Nat.le_add_right _ _)
  · rw [new, List.getElem?_append] at at_i
    split at at_i
    · exact held.held i p at_i
    · next outside =>
        obtain ⟨item, -, rfl⟩ := List.mem_map.1 (List.mem_of_getElem? at_i)
        refine iff_of_false (Nat.not_le.2 (held.behind.trans_lt later)) fun inside => ?_
        exact outside (inside.trans_le (held.within.trans_eq whole.length))

theorem inv_commit [LSNText] {c : Commit plan} (inv : Inv s)
    (stepped : step s (.commit c) = some t) :
    Inv t := by
  simp only [step] at stepped
  split at stepped
  · next later =>
      obtain ⟨table, ran, rest⟩ := Option.bind_eq_some_iff.1 stepped
      obtain ⟨wal, sourced, rest⟩ := Option.bind_eq_some_iff.1 rest
      cases rest
      obtain ⟨n, durable⟩ := inv.durable
      have grown : Durability.Inv plan.types plan.exotic wal n ∧ wal.db = s.wal.db ∧
          wal.txns = s.wal.txns ++ [c.txn] := by
        simp only [Durability.step, Option.ite_none_right_eq_some, Option.some.injEq] at sourced
        obtain ⟨⟨positive, past⟩, rfl⟩ := sourced
        exact ⟨inv_source durable positive past, rfl, rfl⟩
      obtain ⟨durable', db, txns⟩ := grown
      have new : items wal.txns =
          items s.wal.txns ++ c.txn.body.map fun item => (c.txn.endLSN, item) := by
        rw [txns, items_append]
        exact congrArg _ (List.flatMap_singleton ..)
      have held : ∀ {base n}, Held s base n → Held { s with
          table, wal, ops := s.ops ++ c.ops, position := c.txn.endLSN } base n :=
        fun held => held.commit inv.toHistory later new rfl rfl
      refine ⟨⟨⟨n, durable'⟩, ?_, ?_, ?_, ?_, ?_⟩, ?_, inv.alone, fun st here => ?_⟩
      · have kept : State.fanOut { s with
            table, wal, ops := s.ops ++ c.ops, position := c.txn.endLSN } = s.fanOut := by
          rw [State.fanOut, db]
          rfl
        rw [kept]
        exact inv.follows
      · intro t member
        rcases List.mem_append.1 (txns ▸ member) with old | own
        · exact inv.parses t old
        · exact List.mem_singleton.1 own ▸ c.parses
      · intro t member
        rcases List.mem_append.1 (txns ▸ member) with old | own
        · exact (inv.positions t old).trans later.le
        · exact (List.mem_singleton.1 own ▸ le_rfl : t.endLSN ≤ c.txn.endLSN)
      · rw [new, List.map_append, List.map_map]
        refine List.rel_append inv.ships ?_
        rw [show (Prod.snd ∘ fun item : Item => (c.txn.endLSN, item)) = id from rfl, List.map_id]
        exact c.ships
      · show plan.rel.machine.run s.start (s.ops ++ c.ops).reduceOption = some table
        rw [List.reduceOption_append, Machine.run_append, inv.table, Option.bind_some, ran]
      · refine inv.joining.mono rfl (fun base n pending => ⟨held pending.toHeld, ?_⟩)
          fun k within => tableAt_append within c.ops
        exact fun i past sent => getElem?_append_of_some (pending.missed i past sent) c.ops
      · obtain ⟨m, old⟩ := inv.stream st here
        have shown : st.shown s.dispatched.length ≤ s.ops.length :=
          max_le old.within ((Nat.sub_le _ _).trans inv.dispatched_le)
        obtain ⟨t, there, reflects⟩ := old.reflects
        refine ⟨m, held old.toHeld, old.waiting, t, ?_, reflects⟩
        rw [← there]
        exact tableAt_append shown c.ops
  · cases stepped

/-! ### The steps of the first subscription -/

theorem inv_take [LSNText] {lsn : LSN} {rows : List Row} (inv : Inv s)
    (joins : Joins s (.take lsn rows))
    (stepped : step s (.take lsn rows) = some t) : Inv t := by
  obtain ⟨read, steady⟩ := joins
  simp only [step] at stepped
  split at stepped
  · split at stepped
    · next enabled =>
        cases stepped
        obtain ⟨first, onward⟩ := enabled
        have none : s.stream = none := Option.isNone_iff_eq_none.1 first
        refine ⟨⟨inv.durable, inv.follows, inv.parses,
          fun t member => (inv.positions t member).trans onward, inv.ships, inv.table⟩,
          ⟨⟨⟨le_rfl, fun i p at_i => ?_, le_rfl⟩, fun i past sent => ?_⟩, s.table,
            (tableAt_length _ _).trans inv.table, read, steady⟩, fun _ => none, fun st here => ?_⟩
        · obtain ⟨txn, member, same⟩ := mem_items (List.mem_of_getElem? at_i)
          obtain ⟨inside, -⟩ := List.getElem?_eq_some_iff.1 at_i
          exact iff_of_true (same ▸ (inv.positions txn member).trans onward)
            (inside.trans_eq inv.length.symm)
        · exact absurd (past.trans_lt sent) (Nat.not_lt.2 inv.dispatched_le)
        · cases none.symm.trans here
    · cases stepped
  · cases stepped

theorem inv_load [LSNText] (inv : Inv s) (stepped : step s .load = some t) : Inv t := by
  have joining := inv.joining
  simp only [step] at stepped
  split at stepped
  · next lsn rows base phase =>
      rw [phase] at joining
      obtain ⟨pending, table, there, read, steady⟩ := joining
      obtain ⟨loaded, seeded, reflects⟩ := loadSnapshot_reflects plan.distinct plan.keyed
        plan.fingerprint (n := lsn) read steady
      rw [seeded] at stepped
      cases stepped
      have alone : s.stream = none := inv.alone (by simp [phase, Joining.window])
      exact ⟨⟨inv.durable, inv.follows, inv.parses, inv.positions, inv.ships, inv.table⟩,
        ⟨⟨⟨pending.within, pending.held, pending.behind⟩, pending.missed⟩, table, there, reflects⟩,
        fun _ => alone, fun st here => by cases alone.symm.trans here⟩
  · cases stepped

/-- Operations of other tables leave the table as it is. -/
theorem tableAt_foreign {rel : Relation} {start t : Table rel} {ops : List (Option RowOp)}
    {base k : Nat} (foreign : ∀ i, base ≤ i → i < k → ops[i]? = some none)
    (there : Replica.tableAt start ops base = some t) :
    Replica.tableAt start ops (max base k) = some t := by
  induction k with
  | zero => rwa [Nat.max_zero]
  | succ k ih =>
      have before := ih fun i past within => foreign i past (within.trans (Nat.lt_succ_self k))
      by_cases past : base ≤ k
      · rw [max_eq_right past] at before
        rw [max_eq_right (past.trans (Nat.le_succ k)),
          tableAt_succ (foreign k past (Nat.lt_succ_self k)) before]
        rfl
      · rw [max_eq_left (Nat.lt_of_not_le past)]
        exact there

theorem inv_register [LSNText] (inv : Inv s) (stepped : step s .register = some t) : Inv t := by
  have joining := inv.joining
  simp only [step] at stepped
  split at stepped
  · next inst lsn base phase =>
      rw [phase] at joining
      obtain ⟨pending, table, there, reflects⟩ := joining
      cases stepped
      refine ⟨⟨inv.durable, inv.follows, inv.parses, inv.positions, inv.ships, inv.table⟩, trivial,
        fun opened => absurd rfl opened, fun st here => ?_⟩
      cases here
      refine ⟨lsn, ⟨pending.within, pending.held, pending.behind⟩, (fun ch waits => by cases waits),
        table, ?_, reflects⟩
      rw [Stream.shown_unwaiting rfl]
      exact tableAt_foreign pending.missed there
  · cases stepped

/-- A step of fan-out that touches only its cursor. -/
theorem inv_cursor [LSNText] {e : FanOut.Event} (inv : Inv s) {lastID : Nat}
    {batch : Option (List LogRow)}
    (stepped : FanOut.step s.fanOut e =
      some ⟨s.wal.db, lastID, batch, s.dispatched⟩) :
    Inv { s with lastID, batch } :=
  ⟨⟨inv.durable, FanOut.exists_follows_step inv.follows stepped, inv.parses, inv.positions,
    inv.ships, inv.table⟩, inv.joining.congr rfl rfl rfl le_rfl rfl, inv.alone,
    fun st here => (inv.stream st here).imp fun _ old => old.congr rfl rfl rfl le_rfl rfl⟩

/-- A change that is dispatched while a snapshot is pending is one that the snapshot holds,
or of another table. -/
theorem Pending.row [LSNText] {base : Nat} {n : LSN} {id : Nat} {ch : Change}
    (pending : Pending s base n)
    (whole : History t) (ops : t.ops = s.ops) (txns : t.wal.txns = s.wal.txns)
    (position : s.position ≤ t.position) (dispatched : t.dispatched = s.dispatched ++ [(id, ch)])
    (clear : tableMatch plan.defn.withDefaults ch = true → ch.commitLSN ≤ n) :
    Pending t base n := by
  have held := pending.toHeld.congr ops txns position
  refine ⟨held, fun i past sent => ?_⟩
  rw [dispatched, List.length_append, List.length_singleton] at sent
  rcases Nat.lt_succ_iff_lt_or_eq.1 sent with old | rfl
  · rw [ops]
    exact pending.missed i past old
  · obtain ⟨i, op, p, length, here, message, ships, ch₀, decoded, read⟩ :=
      whole.last (by rw [dispatched, List.getLast?_concat])
    rw [dispatched, List.length_append, List.length_singleton] at length
    obtain rfl : i = s.dispatched.length := by omega
    cases op with
    | none => exact here
    | some op =>
        obtain ⟨ch₁, decoded₁, mine, -⟩ := ships
        obtain rfl : ch₀ = ch₁ := Except.ok.inj (decoded.symm.trans decoded₁)
        dsimp only at read
        have within : p.1 ≤ n := by
          have early := clear (by rw [read]; exact mine)
          rwa [read] at early
        exact absurd ((held.held _ p message).1 within) (Nat.not_lt.2 past)

theorem joinInv_row [LSNText] {id : Nat} {ch : Change} (inv : Inv s) (whole : History t)
    (joining : t.joining = s.joining) (start : t.start = s.start) (ops : t.ops = s.ops)
    (txns : t.wal.txns = s.wal.txns) (position : s.position ≤ t.position)
    (dispatched : t.dispatched = s.dispatched ++ [(id, ch)])
    (clear : ∀ lsn ∈ s.joining.window, tableMatch plan.defn.withDefaults ch = true →
      ch.commitLSN ≤ lsn) : JoinInv t t.joining := by
  have old := inv.joining
  rw [joining]
  cases phase : s.joining with
  | idle => trivial
  | taken n rows base =>
      rw [phase] at old clear
      obtain ⟨pending, table, there, rest⟩ := old
      exact ⟨pending.row whole ops txns position dispatched (clear n rfl), table,
        by rw [start, ops, there], rest⟩
  | loaded inst n base =>
      rw [phase] at old clear
      obtain ⟨pending, table, there, rest⟩ := old
      exact ⟨pending.row whole ops txns position dispatched (clear n rfl), table,
        by rw [start, ops, there], rest⟩

theorem inv_row [LSNText] (inv : Inv s) (joins : Joins s .row) (stepped : step s .row = some t) :
    Inv t := by
  simp only [step] at stepped
  split at stepped
  · next r rest reading =>
      split at stepped
      · next ch read =>
          obtain ⟨stream, started, rfl⟩ := Option.map_eq_some_iff.1 stepped
          have fanOut : FanOut.step s.fanOut .row =
              some ⟨s.wal.db, r.id, some rest, s.dispatched ++ [(r.id, ch)]⟩ := by
            simp only [FanOut.step, State.fanOut, reading, read]
          have whole : History { s with
              stream, lastID := r.id, batch := some rest
              dispatched := s.dispatched ++ [(r.id, ch)] } :=
            ⟨inv.durable, FanOut.exists_follows_step inv.follows fanOut, inv.parses,
              inv.positions, inv.ships, inv.table⟩
          have clear : ∀ lsn ∈ s.joining.window, tableMatch plan.defn.withDefaults ch = true →
              ch.commitLSN ≤ lsn := fun lsn window =>
            joins lsn window (r :: rest) reading r rfl ch read
          refine ⟨whole, joinInv_row inv whole rfl rfl rfl rfl le_rfl rfl clear, fun opened => ?_,
            fun st' here => ?_⟩
          · have none := inv.alone opened
            simp only [State.dispatch, none] at started
            exact (Option.some.inj started).symm
          · dsimp only at here
            subst here
            simp only [State.dispatch] at started
            split at started
            · cases started
            · next st present =>
                obtain ⟨st'', copied, same⟩ := Option.map_eq_some_iff.1 started
                cases same
                obtain ⟨state, ran, rfl⟩ := Option.map_eq_some_iff.1 copied
                obtain ⟨m, old⟩ := inv.stream st present
                simp only [Subscribe.step] at ran
                split at ran
                · next idle =>
                    cases ran
                    -- one more change is dispatched, and it waits
                    have shown : Stream.shown
                        { st with state := { st.state with
                          work := .copied ch st.state.connected } }
                        (s.dispatched ++ [(r.id, ch)]).length = st.shown s.dispatched.length := by
                      rw [Stream.shown, Stream.shown, idle, List.length_append]
                      rfl
                    refine ⟨m, ⟨old.within, old.held, old.behind⟩, fun ch' waits => ?_, ?_⟩
                    · cases waits
                      exact ⟨r.id, List.getLast?_concat⟩
                    · rw [shown]
                      exact old.reflects
                · cases ran
      · next unread =>
          split at stepped
          · cases stepped
            refine inv_cursor (e := .row) inv ?_
            simp only [FanOut.step, State.fanOut, reading, unread]
          · cases stepped
  · cases stepped

theorem inv_live [LSNText] {e : Subscribe.Ev} (inv : Inv s) (stepped : step s (.live e) = some t) :
    Inv t := by
  obtain ⟨st, here, rest⟩ := Option.bind_eq_some_iff.1 stepped
  obtain ⟨st', moved, rfl⟩ := Option.map_eq_some_iff.1 rest
  obtain ⟨n, old⟩ := inv.stream st here
  refine ⟨⟨inv.durable, inv.follows, inv.parses, inv.positions, inv.ships, inv.table⟩,
    inv.joining.congr rfl rfl rfl le_rfl rfl, fun opened => ?_, fun st'' same => ?_⟩
  · cases (inv.alone opened).symm.trans here
  · cases same
    exact ⟨n, (old.live inv.toHistory moved).congr rfl rfl rfl le_rfl rfl⟩

theorem inv_step [LSNText] {e : Event plan} (inv : Inv s) (joins : Joins s e)
    (stepped : step s e = some t) : Inv t := by
  cases e with
  | commit c => exact inv_commit inv stepped
  | take lsn rows => exact inv_take inv joins stepped
  | load => exact inv_load inv stepped
  | register => exact inv_register inv stepped
  | row => exact inv_row inv joins stepped
  | live e => exact inv_live inv stepped
  | wal e =>
      cases e with
      | source txn => cases stepped
      | _ =>
          obtain ⟨wal, ran, rfl⟩ := Option.map_eq_some_iff.1 stepped
          exact inv_wal inv (by rintro _ ⟨⟩) ran
  | tick =>
      simp only [step] at stepped
      split at stepped
      · next closed =>
          split at stepped
          · cases stepped
            refine inv_cursor (e := .tick) inv ?_
            simp only [FanOut.step, State.fanOut, closed]
          · cases stepped
      · cases stepped
  | tickFails =>
      simp only [step, Option.ite_none_right_eq_some, Option.some.injEq] at stepped
      obtain ⟨-, rfl⟩ := stepped
      exact inv
  | stop =>
      simp only [step, Option.ite_none_right_eq_some, Option.some.injEq] at stepped
      obtain ⟨⟨-, opened⟩, rfl⟩ := stepped
      exact inv_cursor (e := .stop) inv (if_pos opened)

theorem inv_init [LSNText] {table : Table plan.rel} :
    Inv ({ start := table, table := table } : State plan) where
  durable := ⟨0, inv_initial⟩
  follows := FanOut.exists_follows_init
    ⟨rfl, rfl, rfl, Nat.one_pos, fun r member => absurd member List.not_mem_nil⟩
  parses := by simp [initial]
  positions := by simp [initial]
  ships := .nil
  table := rfl
  joining := trivial
  alone := fun opened => absurd rfl opened
  stream := fun st absent => by cases absent

/-! ## The refinement -/

theorem Inv.shown_le [LSNText] (inv : Inv s) : s.shown ≤ s.ops.length := by
  rw [State.shown]
  cases here : s.stream with
  | none => exact Nat.zero_le _
  | some st =>
      obtain ⟨n, old⟩ := inv.stream st here
      exact max_le old.within ((Nat.sub_le _ _).trans inv.dispatched_le)

theorem Inv.shows [LSNText] (inv : Inv s) : s.Shows where
  rows := by
    intro st here
    obtain ⟨n, old⟩ := inv.stream st here
    obtain ⟨t, at_k, reflects⟩ := old.reflects
    refine ⟨t, ?_, reflects.materialized⟩
    rw [State.shown, here]
    exact at_k
  current := by
    intro opened quiet
    obtain ⟨st, here⟩ := Option.isSome_iff_exists.1 opened
    obtain ⟨n, old⟩ := inv.stream st here
    have idle : Work.waiting st.state.work = none := by
      have idle := quiet.idle
      rw [State.idle, here] at idle
      cases work : st.state.work with
      | idle => rfl
      | _ =>
          rw [Option.all_some, work] at idle
          cases idle
    have all : s.shown = s.ops.length := by
      rw [State.shown, here]
      show st.shown s.dispatched.length = _
      rw [Stream.shown_unwaiting idle, inv.dispatched.2.2 quiet, ← inv.length]
      exact max_eq_right old.within
    exact ⟨all, by rw [all, tableAt_length, inv.table]⟩

/-- `dispatchChange` of one more change that waits shows nothing yet. -/
theorem dispatch_shown {ch : Change} {stream : Option (Stream C)}
    (started : s.dispatch ch = some stream) (dispatched : Nat) :
    s.stream.elim 0 (fun st => st.shown dispatched) ≤
      stream.elim 0 fun st => st.shown (dispatched + 1) := by
  simp only [State.dispatch] at started
  split at started
  · next none =>
      rw [none]
      exact Nat.zero_le _
  · next st present =>
      obtain ⟨st', copied, rfl⟩ := Option.map_eq_some_iff.1 started
      obtain ⟨state, ran, rfl⟩ := Option.map_eq_some_iff.1 copied
      simp only [Subscribe.step] at ran
      split at ran
      · next idle =>
          cases ran
          rw [present]
          simp only [Option.elim, Stream.shown, idle]
          exact le_rfl
      · cases ran

/-- Only commits add to the history, and no step takes back what is shown. -/
theorem step_shown [LSNText] {e : Event plan} (inv : Inv s) (stepped : step s e = some t) :
    t.start = s.start ∧ s.shown ≤ t.shown ∧
      (t.ops = s.ops ∨ ∃ c : Commit plan, t.ops = s.ops ++ c.ops ∧ t.shown = s.shown) := by
  cases e with
  | commit c =>
      simp only [step] at stepped
      split at stepped
      · obtain ⟨table, -, rest⟩ := Option.bind_eq_some_iff.1 stepped
        obtain ⟨wal, -, rest⟩ := Option.bind_eq_some_iff.1 rest
        cases rest
        exact ⟨rfl, le_rfl, .inr ⟨c, rfl, rfl⟩⟩
      · cases stepped
  | wal e =>
      cases e with
      | source txn => cases stepped
      | _ =>
          obtain ⟨wal, -, rfl⟩ := Option.map_eq_some_iff.1 stepped
          exact ⟨rfl, le_rfl, .inl rfl⟩
  | take lsn rows | load =>
      simp only [step] at stepped
      repeat' split at stepped
      all_goals first
        | cases stepped
          exact ⟨rfl, le_rfl, .inl rfl⟩
        | cases stepped
  | register =>
      simp only [step] at stepped
      split at stepped
      · next phase =>
          have nothing : s.shown = 0 := by
            rw [State.shown, inv.alone (by simp [phase, Joining.window])]
            rfl
          cases stepped
          exact ⟨rfl, nothing ▸ Nat.zero_le _, .inl rfl⟩
      · cases stepped
  | tick =>
      simp only [step] at stepped
      repeat' split at stepped
      all_goals first
        | cases stepped
          exact ⟨rfl, le_rfl, .inl rfl⟩
        | cases stepped
  | tickFails =>
      simp only [step, Option.ite_none_right_eq_some, Option.some.injEq] at stepped
      obtain ⟨-, rfl⟩ := stepped
      exact ⟨rfl, le_rfl, .inl rfl⟩
  | row =>
      simp only [step] at stepped
      split at stepped
      · split at stepped
        · obtain ⟨stream, started, rfl⟩ := Option.map_eq_some_iff.1 stepped
          refine ⟨rfl, ?_, .inl rfl⟩
          have grown := dispatch_shown started s.dispatched.length
          simpa [State.shown] using grown
        · split at stepped
          · cases stepped
            exact ⟨rfl, le_rfl, .inl rfl⟩
          · cases stepped
      · cases stepped
  | stop =>
      simp only [step, Option.ite_none_right_eq_some, Option.some.injEq] at stepped
      obtain ⟨-, rfl⟩ := stepped
      exact ⟨rfl, le_rfl, .inl rfl⟩
  | live e =>
      obtain ⟨st, here, rest⟩ := Option.bind_eq_some_iff.1 stepped
      obtain ⟨st', moved, rfl⟩ := Option.map_eq_some_iff.1 rest
      obtain ⟨base, -, moves⟩ := Stream.liveStep_moves moved
      refine ⟨rfl, ?_, .inl rfl⟩
      rw [State.shown, State.shown, here]
      show st.shown _ ≤ st'.shown _
      rw [Stream.shown, Stream.shown, base]
      refine max_le_max le_rfl (Nat.sub_le_sub_left ?_ _)
      cases moves with
      | still _ waiting => rw [waiting]
      | begins _ _ done => rw [done]; exact Nat.zero_le _
      | appends _ _ waiting => rw [waiting]

/-- The replica a state of the pipeline stands for. -/
structure StandsFor (s : State plan) (r : Replica plan.rel) : Prop where
  start : r.start = s.start
  ops : r.ops = s.ops
  shown : r.shown = s.shown

structure Implements [LSNText] (s : State plan) (r : Replica plan.rel) :
    Prop extends StandsFor s r where
  inv : Inv s

theorem simulates_replica [LSNText] (plan : Plan C) :
    (machine plan).Simulates Joins (Replica.machine plan.rel) Implements where
  init := by
    rintro _ ⟨table, rfl⟩
    exact ⟨⟨table, [], 0, le_rfl⟩, rfl, ⟨rfl, rfl, rfl⟩, inv_init⟩
  step := by
    intro s e t r implements joins stepped
    have inv := inv_step implements.inv joins stepped
    obtain ⟨start, forward, ops⟩ := step_shown implements.inv stepped
    obtain ⟨rStart, rOps, rShown⟩ := implements.toStandsFor
    have bound : r.shown ≤ t.shown := rShown ▸ forward
    rcases ops with same | ⟨c, grown, kept⟩
    · have within : t.shown ≤ r.ops.length := by rw [rOps, ← same]; exact inv.shown_le
      refine ⟨[.show t.shown], { r with shown := t.shown, bound := within }, ?_,
        ⟨rStart.trans start.symm, rOps.trans same.symm, rfl⟩, inv⟩
      simp [Machine.run, Replica.machine, Replica.step, bound, within]
    · have runs : (Replica.tableAt r.start (r.ops ++ c.ops) (r.ops ++ c.ops).length).isSome := by
        rw [tableAt_length, rOps, ← grown, rStart, ← start, inv.table]
        rfl
      refine ⟨[.commit c.ops], { r with
        ops := r.ops ++ c.ops
        bound := r.bound.trans (by rw [List.length_append]; exact Nat.le_add_right _ _) }, ?_,
        ⟨rStart.trans start.symm, by rw [grown, ← rOps], rShown.trans kept.symm⟩, inv⟩
      simp only [Machine.run, Replica.machine, Replica.step, if_pos runs, Option.bind_some]

end Pipeline

/-! ## Two tasks, a crash and a snapshot -/

theorem lands_of_plain {exotic : Value → Option Json} {v : Value} (plain : v.plain) :
    Lands exotic v := by
  cases v with
  | null | bool | int | int32 | int64 | string => rfl
  | float64 | bytes | other => cases plain

namespace Tasks

attribute [local instance] Wal.Pglogrepl.hexadecimal

/-- A task as the decoder and a snapshot deliver it. -/
def scanned (id : Int64) (status : String) : Row :=
  KeyMap.ofList [("id", .int64 id), ("status", .string status)]

/-- The same task as it comes back from `change_log`. -/
def task (id : Int64) (status : String) : Row :=
  KeyMap.ofList [("id", .float64 (.ofInt64 id)), ("status", .string status)]

def admitted : List Row := [task 1 "open", task 1 "done", task 2 "open"]

theorem admitted_keys : ∀ r ∈ admitted, r.keys = {"id", "status"} := by decide +kernel

theorem id_is_column : ∀ col ∈ ["id"], col ∈ ({"id", "status"} : Finset String) := by decide

theorem key_ne_nil : ["id"] ≠ [] := List.cons_ne_nil _ _

def rel : Relation where
  columns := {"id", "status"}
  primaryKey := ["id"]
  admits row := admitted.contains row
  complete row member := admitted_keys row (List.contains_iff_mem.1 member)
  key_columns := id_is_column
  key_nonempty := key_ne_nil

theorem rel_distinct : rel.DistinctKeys := by
  intro r r' member member'
  have each : ∀ r ∈ admitted, ∀ r' ∈ admitted,
      rel.keyText r = rel.keyText r' → rel.keyOf r = rel.keyOf r' := by decide +kernel
  exact each r (List.contains_iff_mem.1 member) r' (List.contains_iff_mem.1 member')

def tasks : RelationMessage :=
  ⟨16384, "public", "tasks", [⟨"id", 23, -1, 1⟩, ⟨"status", 25, -1, 0⟩]⟩

def users : RelationMessage := ⟨16385, "public", "users", [⟨"id", 23, -1, 1⟩]⟩

/-- `int4`, for the numerals of this run. -/
def types : Types
  | 23 => some fun text => ([("1", 1), ("2", 2), ("7", 7)].lookup text).map Value.int64
  | _ => none

def noExotic : Value → Option Json := fun _ => none

def openTasks : Plan Unit where
  types := types
  exotic := noExotic
  rel := rel
  defn := { name := "tasks", schema := "", table := "", primaryKey := [], bind := none }
  filter := ⟨[⟨"status", .eq, .string "open"⟩]⟩
  fingerprint := fingerprintRelation tasks
  keyed := by decide
  distinct := rel_distinct
  name := "tasks"
  key := streamKey "tasks" ""
  resumeAt := 0
  bufSize := 8

def texts (id status : String) : Option (List TupleColumn) := some [⟨'t', id⟩, ⟨'t', status⟩]

def change (op : Op) (old new : Option Row) : Change :=
  { schema := "public", table := "tasks", op := op,
    relationFingerprint := fingerprintRelation tasks, old := old, new := new }

theorem lands_scanned {id : Int64} {status : String} {col : String} {v : Value}
    (found : (scanned id status).lookup col = some v) : Lands noExotic v := by
  rw [scanned, KeyMap.lookup_ofList_cons, KeyMap.lookup_ofList_cons, KeyMap.lookup_ofList_nil]
    at found
  split_ifs at found <;> cases found <;> exact lands_of_plain rfl

def insertTask (text : String) : Item := (tasks, .insert 16384 (texts text "open"))

def closeTask : Item := (tasks, .update 16384 (texts "1" "open") (texts "1" "done"))

/-- What the decoder makes of a tuple. -/
def decodedRow (id status : String) : Row :=
  ((∅ : Row).insert "id" (decodeColumnValue types id 23)).insert "status"
    (decodeColumnValue types status 25)

theorem ships_insert {id : Int64} {text : String}
    (read : decodedRow text "open" = scanned id "open")
    (live : (scanned id "open").liveForm noExotic = task id "open") :
    Ships openTasks (some (.insert (task id "open"))) (insertTask text) := by
  have decoded : (insertTask text).2.decode openTasks.types (insertTask text).1.relationMeta =
      .ok (change .insert none (decodedRow text "open")) := rfl
  rw [read] at decoded
  refine ⟨_, decoded, rfl, rfl, ⟨rfl, congrArg some live⟩, ?_⟩
  rintro v ⟨r, old | new, col, found⟩
  · cases old
  · cases new
    exact lands_scanned found

theorem ships_close :
    Ships openTasks (some (.update (task 1 "open") (task 1 "done"))) closeTask := by
  have before : decodedRow "1" "open" = scanned 1 "open" := by decide +kernel
  have after : decodedRow "1" "done" = scanned 1 "done" := by decide +kernel
  have decoded : closeTask.2.decode openTasks.types closeTask.1.relationMeta =
      .ok (change .update (decodedRow "1" "open") (decodedRow "1" "done")) := rfl
  rw [before, after] at decoded
  refine ⟨_, decoded, rfl, rfl, ⟨rfl, .inl ⟨by decide +kernel, .inr (by decide +kernel)⟩⟩, ?_⟩
  rintro v ⟨r, old | new, col, found⟩
  · cases old
    exact lands_scanned found
  · cases new
    exact lands_scanned found

/-- A row of a table that no shape shows. -/
def addUser : Item := (users, .insert 16385 (some [⟨'t', "7"⟩]))

theorem ships_user : Ships openTasks none addUser := by
  intro ch decoded
  cases decoded
  rfl

def first : Commit openTasks where
  txn := ⟨700, 9, 10, [insertTask "1", addUser]⟩
  ops := [some (.insert (task 1 "open")), none]
  ships := .cons (ships_insert (by decide +kernel) (by decide +kernel)) (.cons ships_user .nil)
  parses := by decide

def second : Commit openTasks where
  txn := ⟨701, 19, 20, [insertTask "2"]⟩
  ops := [some (.insert (task 2 "open"))]
  ships := .cons (ships_insert (by decide +kernel) (by decide +kernel)) .nil
  parses := by decide

def third : Commit openTasks where
  txn := ⟨702, 29, 30, [closeTask]⟩
  ops := [some (.update (task 1 "open") (task 1 "done"))]
  ships := .cons ships_close .nil
  parses := by decide

/-- The rows of the first two commits, as a snapshot delivers them. -/
def both : List Row := [scanned 1 "open", scanned 2 "open"]

def emptyTable : Table rel := ⟨∅, by simp, by simp⟩

/-- The consumer reads one transaction and makes it durable. -/
def consume (announced : List RelationMessage) (rows : Nat) : List (Event openTasks) :=
  [.wal (.deliver .begin)] ++ announced.map (fun m => .wal (.deliver (.relation m))) ++
    List.replicate rows (.wal (.deliver .row)) ++
    [.wal (.deliver .commit), .wal (.settle true)]

/-- The snapshot is taken after the second commit, of which fan-out has seen nothing; until
its instance is registered, a row of another table is dispatched and a third transaction
commits.  The consumer loses the reply of its second transaction and reads it again. -/
def schedule : List (Event openTasks) :=
  [.commit first, .wal (.start 0)] ++ consume [tasks, users] 2 ++
    [.wal .ack, .tick, .row, .commit second, .take 20 both, .row, .load, .stop, .commit third,
      .register] ++
    consume [] 1 ++ [.wal .stop, .wal (.start 1)] ++ consume [tasks] 1 ++ [.wal .ack] ++
    consume [] 1 ++ [.wal .ack, .tick, .row, .live .fanOut, .row, .live .fanOut, .live .fanOut,
      .live .fanOut]

end Tasks

end Tether.Pipeline
