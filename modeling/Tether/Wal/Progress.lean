/-
# Tether.Wal.Progress — a transaction is ingested exactly when its values encode

The decoder cannot fail on a transaction whose relations are announced and whose
tuples are well formed: a column whose codec refuses it is kept as text.  The
encoder can.  `persist` marshals every row with `encoding/json`, which refuses NaN
and the infinities, and there the consumer stops with the checkpoint before the
transaction: every later start reads it again and stops again.

`advances_iff` runs the replication machine over the messages of one transaction.
-/
import Tether.Wal.Durability
import Tether.Wal.RoundTrip

namespace Tether.Durability

open Tether.Lib Tether.Wal

set_option autoImplicit false

/-! ## Decoding -/

/-- The tuples of a row message, the old one first. -/
def tuplesOf : RowMessage → List (List TupleColumn)
  | .insert _ new => new.toList
  | .update _ old new => old.toList ++ new.toList
  | .delete _ old => old.toList

/-- No more columns than the relation, all of a kind the decoder knows. -/
def WellFormed (rel : RelationMessage) (tuple : List TupleColumn) : Prop :=
  tuple.length ≤ rel.columns.length ∧ ∀ col ∈ tuple, col.kind ∈ ['n', 'u', 't', 'b']

instance (rel : RelationMessage) (tuple : List TupleColumn) : Decidable (WellFormed rel tuple) :=
  inferInstanceAs (Decidable (_ ∧ _))

namespace Txn

/-- Every row message is for its relation and has well-formed tuples. -/
def Readable (t : Txn) : Prop :=
  ∀ item ∈ t.body, item.2.relationID = item.1.relationID ∧
    ∀ tuple ∈ tuplesOf item.2, WellFormed item.1 tuple

instance (t : Txn) : Decidable t.Readable :=
  inferInstanceAs (Decidable (∀ item ∈ t.body, _ ∧ ∀ tuple ∈ tuplesOf item.2, _))

/-- The relations of the messages match the fingerprints cached under their numbers, and
each other. -/
structure Matches (rels : KeyMap Nat RelationMeta) (items : List Item) : Prop where
  cached : ∀ item ∈ items, ∀ known, rels.lookup item.1.relationID = some known →
    known.fingerprint = fingerprintRelation item.1
  agree : ∀ item ∈ items, ∀ item' ∈ items, item.1.relationID = item'.1.relationID →
    fingerprintRelation item.1 = fingerprintRelation item'.1

/-- Every value the messages decode to is one that `encoding/json` accepts. -/
def Encodable (types : Types) (exotic : Value → Option Json) (t : Txn) : Prop :=
  ∀ item ∈ t.body, ∀ ch, item.2.decode types item.1.relationMeta = .ok ch →
    ∀ v, ch.Holds v → (v.marshal exotic).isSome

/-- The messages of the transaction, each row after its relation. -/
def messages (t : Txn) : List Event :=
  .deliver .begin ::
    (t.body.flatMap fun item => [.deliver (.relation item.1), .deliver .row]) ++
    [.deliver .commit]

/-- Then the COMMIT of the durable transaction, and the acknowledgement. -/
def deliveries (t : Txn) : List Event := t.messages ++ [.settle true, .ack]

/-- The position the transaction is persisted under. -/
def position (t : Txn) : LSN := if t.endLSN = 0 then t.commitLSN else t.endLSN

end Txn

variable (types : Types) {exotic : Value → Option Json}

theorem decodeTuple_ok {rel : RelationMessage} {tuple : Option (List TupleColumn)}
    (formed : ∀ columns ∈ tuple.toList, WellFormed rel columns) :
    ∃ row, decodeTuple types rel.relationMeta tuple = .ok row := by
  cases tuple with
  | none => exact ⟨none, rfl⟩
  | some columns =>
      obtain ⟨short, kinds⟩ := formed columns (by simp)
      cases decoded : decodeColumns types rel.relationMeta 0 columns ∅ with
      | ok row => exact ⟨some row, by rw [decodeTuple, decoded]; rfl⟩
      | error err =>
          rcases (decodeColumns_error_iff 0 columns ∅).1 ⟨err, decoded⟩ with
            ⟨long, -⟩ | ⟨i, col, found, -, unknown⟩
          · rw [Nat.zero_add] at long
            exact absurd short (Nat.not_le_of_lt long)
          · have kind := kinds col (List.mem_of_getElem? found)
            rw [← List.contains_iff_mem] at kind
            exact absurd (kind.symm.trans unknown) Bool.false_ne_true.symm

/-- **Decoding is total** on well-formed tuples. -/
theorem decode_ok {rel : RelationMessage} {m : RowMessage}
    (formed : ∀ tuple ∈ tuplesOf m, WellFormed rel tuple) :
    ∃ ch, m.decode types rel.relationMeta = .ok ch := by
  cases m with
  | insert id new =>
      obtain ⟨row, decoded⟩ := decodeTuple_ok types formed
      exact ⟨_, by rw [RowMessage.decode, decoded]; rfl⟩
  | delete id old =>
      obtain ⟨row, decoded⟩ := decodeTuple_ok types formed
      exact ⟨_, by rw [RowMessage.decode, decoded]; rfl⟩
  | update id old new =>
      have formedOld : ∀ tuple ∈ old.toList, WellFormed rel tuple := fun tuple here =>
        formed tuple (List.mem_append_left _ here)
      have formedNew : ∀ tuple ∈ new.toList, WellFormed rel tuple := fun tuple here =>
        formed tuple (List.mem_append_right _ here)
      obtain ⟨before, decodedOld⟩ := decodeTuple_ok types formedOld
      obtain ⟨after, decodedNew⟩ := decodeTuple_ok types formedNew
      exact ⟨_, by rw [RowMessage.decode, decodedOld, decodedNew]; rfl⟩

/-! ## Encoding -/

variable {types}

theorem isSome_marshal_iff (row : Option Row) :
    (row.elim (some none) fun r => (r.marshal exotic).map some).isSome ↔
      ∀ r ∈ row, ∀ col v, r.lookup col = some v → (v.marshal exotic).isSome := by
  cases row with
  | none => simp
  | some r =>
      simp only [Option.elim_some, Option.isSome_map, Row.marshal, Option.mem_def,
        Option.some.injEq, forall_eq']
      rw [← KeyMap.all_iff]
      split <;> simp_all

/-- A change is stored exactly when each of its values encodes. -/
theorem isSome_store_iff (ch : Change) :
    (ch.store exotic).isSome ↔ ∀ v, ch.Holds v → (v.marshal exotic).isSome := by
  rw [Change.forall_holds, ← isSome_marshal_iff, ← isSome_marshal_iff, Change.store]
  cases ch.old.elim (some none) fun r => (r.marshal exotic).map some <;>
    cases ch.new.elim (some none) fun r => (r.marshal exotic).map some <;> simp

theorem isSome_stored_iff {t : Txn} (readable : t.Readable) :
    (t.stored types exotic).isSome ↔ t.Encodable types exotic := by
  rw [Txn.stored, isSome_mapM_iff]
  refine forall_congr' fun item => forall_congr' fun member => ?_
  obtain ⟨ch, decoded⟩ := decode_ok types (readable item member).2
  simp only [storedItem, decoded, Except.toOption, Option.bind_some, isSome_store_iff,
    Except.ok.injEq, forall_eq']

/-! ## The messages of one transaction -/

theorem handleRelation_matches {c : Consumer} {m : RelationMessage}
    (cached : ∀ known, c.rels.lookup m.relationID = some known →
      known.fingerprint = fingerprintRelation m) :
    c.handleRelation m = .ok { c with rels := c.rels.insert m.relationID m.relationMeta } := by
  unfold Consumer.handleRelation
  split
  · rename_i known found
    exact if_neg (not_not.2 (cached known found))
  · rfl

/-- Once a relation is accepted, the rest still matches. -/
theorem Txn.Matches.insert {rels : KeyMap Nat RelationMeta} {item : Item} {items : List Item}
    (fits : Matches rels (item :: items)) :
    Matches (rels.insert item.1.relationID item.1.relationMeta) items where
  cached item' member known found := by
    rw [KeyMap.lookup_insert_eq] at found
    split at found
    · rename_i same
      cases found
      exact (fits.agree item' (List.mem_cons_of_mem _ member) item List.mem_cons_self same).symm
    · exact fits.cached item' (List.mem_cons_of_mem _ member) known found
  agree item' member item'' member' :=
    fits.agree item' (List.mem_cons_of_mem _ member) item'' (List.mem_cons_of_mem _ member')

/-- The session after a relation message. -/
def Session.announce (q : Session) (rel : RelationMessage) : Session :=
  { q with
    consumer := { q.consumer with
      rels := q.consumer.rels.insert rel.relationID rel.relationMeta }
    sent := q.sent.insert rel.relationID rel }

/-- The session after a row message that was decoded to `ch`. -/
def Session.read (q : Session) (ch : Change) (rest : List Item) : Session :=
  { q with
    consumer := { q.consumer with pending := q.consumer.pending ++ [ch] }
    position := .inside rest }

variable {s : State} {q : Session} {items : List Item} {rel : RelationMessage} {m : RowMessage}

theorem step_relation (session : s.session = some q) (position : q.position = .inside items)
    (cached : ∀ known, q.consumer.rels.lookup rel.relationID = some known →
      known.fingerprint = fingerprintRelation rel) :
    step types exotic s (.deliver (.relation rel)) =
      some { s with session := some (q.announce rel) } := by
  have sent : q.message s.txns (.relation rel) =
      some (.relation rel, { q with sent := q.sent.insert rel.relationID rel }) := by
    simp only [Session.message, position]
  simp only [step, session, sent, Option.bind_eq_bind, Option.bind_some, State.deliver,
    Consumer.handle, handleRelation_matches cached]
  rfl

theorem step_row (session : s.session = some q)
    (position : q.position = .inside ((rel, m) :: items))
    (sent : q.sent.lookup m.relationID = some rel)
    (announced : q.consumer.rels.lookup m.relationID = some rel.relationMeta) {ch : Change}
    (decoded : m.decode types rel.relationMeta = .ok ch) :
    step types exotic s (.deliver .row) = some { s with session := some (q.read ch items) } := by
  have next : q.message s.txns .row = some (.row m, { q with position := .inside items }) := by
    simp only [Session.message, position, sent, if_true]
  simp only [step, session, next, Option.bind_eq_bind, Option.bind_some, State.deliver,
    Consumer.handle, Consumer.decode_of_announced announced, decoded]
  rfl

variable (types exotic) in
/-- The rows of a transaction are read to the end. -/
theorem run_rows (session : s.session = some q) (position : q.position = .inside items)
    (readable : ∀ item ∈ items, item.2.relationID = item.1.relationID ∧
      ∀ tuple ∈ tuplesOf item.2, WellFormed item.1 tuple)
    (fits : Txn.Matches q.consumer.rels items) :
    ∃ c sent changes, (machine types exotic).run s
        (items.flatMap fun item => [.deliver (.relation item.1), .deliver .row]) =
          some { s with session := some ⟨c, sent, q.cursor, .inside []⟩ } ∧
      c.curXid = q.consumer.curXid ∧ c.pending = q.consumer.pending ++ changes ∧
      List.Forall₂ (fun item ch => item.2.decode types item.1.relationMeta = .ok ch)
        items changes := by
  induction items generalizing s q with
  | nil =>
      refine ⟨q.consumer, q.sent, [], ?_, rfl, (List.append_nil _).symm, .nil⟩
      rw [← position, ← session]
      rfl
  | cons item items ih =>
      obtain ⟨rel, m⟩ := item
      obtain ⟨own, formed⟩ := readable (rel, m) List.mem_cons_self
      obtain ⟨ch, decoded⟩ := decode_ok types formed
      have same : m.relationID = rel.relationID := own
      have announced : step types exotic s (.deliver (.relation rel)) =
          some { s with session := some (q.announce rel) } :=
        step_relation session position (fits.cached (rel, m) List.mem_cons_self)
      have read : step types exotic { s with session := some (q.announce rel) } (.deliver .row) =
          some { s with session := some ((q.announce rel).read ch items) } :=
        step_row (q := q.announce rel) rfl position
          ((KeyMap.lookup_insert_eq ..).trans (if_pos same))
          ((KeyMap.lookup_insert_eq ..).trans (if_pos same)) decoded
      obtain ⟨c, sent, changes, ran, xid, pending, decodes⟩ :=
        ih (s := { s with session := some ((q.announce rel).read ch items) }) rfl rfl
          (fun item member => readable item (List.mem_cons_of_mem _ member)) fits.insert
      refine ⟨c, sent, ch :: changes, ?_, xid, ?_, .cons decoded decodes⟩
      · rw [List.flatMap_cons, Machine.run_append]
        simp only [Machine.run, machine, announced, read, Option.bind_some]
        exact ran
      · rw [pending]
        simp [Session.read, Session.announce]

/-- What is sent to the database at the end: the changes of the messages, if all of them
can be stored. -/
theorem stored_eq {t : Txn} {c : Consumer} {changes : List Change} {lsn : LSN}
    (pending : c.pending = changes)
    (decodes : List.Forall₂ (fun item ch => item.2.decode types item.1.relationMeta = .ok ch)
      t.body changes) :
    ({ c with pending := c.pending.map fun ch => { ch with commitLSN := lsn } } :
        Consumer).stored exotic = t.stored types exotic := by
  subst pending
  rw [Consumer.stored, Txn.stored]
  generalize t.body = items at decodes
  generalize c.pending = changes at decodes
  induction decodes with
  | nil => rfl
  | cons here _ ih =>
      have first : ∀ {ch : Change} {item : Item},
          item.2.decode types item.1.relationMeta = .ok ch →
          Change.store exotic { ch with commitLSN := lsn } = storedItem types exotic item := by
        intro ch item decoded
        rw [storedItem, decoded]
        rfl
      rw [List.map_cons, List.mapM_cons, List.mapM_cons, first here, ih]

variable (types exotic) in
/-- At the COMMIT of a transaction the changes go to the database, or the consumer stops. -/
theorem run_messages {t : Txn} (session : s.session = some q) (between : q.position = .between)
    (here : s.txns[q.cursor]? = some t) (idle : s.inflight = none) (readable : t.Readable)
    (fits : Txn.Matches q.consumer.rels t.body) :
    ∃ c sent, (machine types exotic).run s t.messages = some
      (match t.stored types exotic with
      | some stored => { s with
          inflight := some ⟨t.position, c.curXid, stored⟩
          session := some ⟨c, sent, q.cursor, .persisting⟩ }
      | none => { s with session := none }) := by
  have opened : step types exotic s (.deliver .begin) = some { s with
      session := some { q with
        consumer := { q.consumer with pending := [], curXid := t.xid }
        position := .inside t.body } } := by
    simp only [step, session, Session.message, between, here, Option.bind_eq_bind,
      Option.bind_some, State.deliver, Consumer.handle]
  obtain ⟨c, sent, changes, ran, -, pending, decodes⟩ :=
    run_rows types exotic (s := { s with
      session := some { q with
        consumer := { q.consumer with pending := [], curXid := t.xid }
        position := .inside t.body } }) rfl rfl readable fits
  have sends : ({ c with pending := c.pending.map fun ch =>
      { ch with commitLSN := if t.endLSN = 0 then t.commitLSN else t.endLSN } } :
      Consumer).stored exotic = t.stored types exotic := stored_eq pending decodes
  refine ⟨{ c with pending := c.pending.map fun ch => { ch with commitLSN := t.position } }, sent,
    Machine.run_cons.2 ⟨_, opened, Machine.run_trans ran (Machine.run_cons.2 ⟨_, ?_, rfl⟩)⟩⟩
  simp only [machine, step, Session.message, here, Option.bind_eq_bind, Option.bind_some,
    State.deliver, Consumer.handle, idle, sends]
  cases t.stored types exotic <;> rfl

/-- **A transaction is ingested exactly when its values encode.**  The session is at a
transaction whose relations match and whose tuples are well formed.  If they encode, the
session goes on to the next transaction, and the position a restart begins at is the
transaction's own; if not, the consumer stops with the database as it was. -/
theorem advances_iff {t : Txn} (session : s.session = some q) (between : q.position = .between)
    (here : s.txns[q.cursor]? = some t) (idle : s.inflight = none) (readable : t.Readable)
    (fits : Txn.Matches q.consumer.rels t.body) :
    ((t.stored types exotic).isSome ↔ t.Encodable types exotic) ∧
      ((∃ s' q', (machine types exotic).run s t.deliveries = some s' ∧ s'.session = some q' ∧
        q'.cursor = q.cursor + 1 ∧ q'.position = .between ∧
        Consumer.resolveStartLSN s'.db = t.position) ↔ t.Encodable types exotic) ∧
      (¬ t.Encodable types exotic → ∃ s', (machine types exotic).run s t.messages = some s' ∧
        s'.session = none ∧ s'.db = s.db) := by
  have encodes : (t.stored types exotic).isSome ↔ t.Encodable types exotic :=
    isSome_stored_iff readable
  obtain ⟨c, sent, ran⟩ := run_messages types exotic session between here idle readable fits
  refine ⟨encodes, ?_⟩
  rw [← encodes, Txn.deliveries, Machine.run_append, ran, Option.bind_some]
  cases t.stored types exotic with
  | none =>
      refine ⟨⟨?_, nofun⟩, fun _ => ⟨_, rfl, rfl, rfl⟩⟩
      -- nothing is in flight
      rintro ⟨s', q', settled, -⟩
      simp [Machine.run, machine, step, idle] at settled
  | some stored => exact ⟨⟨fun _ => rfl, fun _ => ⟨_, _, rfl, rfl, rfl, rfl, rfl⟩⟩, by simp⟩

/-! A table with a `float8` column. -/

namespace Measures

def measures : RelationMessage :=
  ⟨16390, "public", "measures", [⟨"id", 23, -1, 1⟩, ⟨"value", 701, -1, 0⟩]⟩

/-- The driver's codec of `float8`, on the two texts used here. -/
def float8 : Types := fun oid =>
  if oid = 701 then
    some fun text =>
      if text = "NaN" then some (.float64 .nan)
      else if text = "0" then some (.float64 (.ofInt64 0))
      else none
  else none

def noExotic : Value → Option Json := fun _ => none

def measured (value : String) : Txn :=
  ⟨700, 9, 10, [(measures, .insert 16390 (some [⟨'t', "1"⟩, ⟨'t', value⟩]))]⟩

/-- A first session, before the transaction. -/
def ready (value : String) : State :=
  { initial with
    txns := [measured value]
    session := some ⟨Consumer.run .empty, ∅, 0, .between⟩ }

theorem measured_matches (value : String) : Txn.Matches ∅ (measured value).body where
  cached item _ known found := by simp at found
  agree item member item' member' _ := by
    rw [List.mem_singleton.1 member, List.mem_singleton.1 member']

theorem advances_iff_zero :
    ∃ s q, (machine float8 noExotic).run (ready "0") (measured "0").deliveries = some s ∧
      s.session = some q ∧ q.cursor = 1 ∧ q.position = .between ∧
      Consumer.resolveStartLSN s.db = 10 := by
  have readable : (measured "0").Readable := by decide
  have encodable : (measured "0").Encodable float8 noExotic :=
    (isSome_stored_iff readable).1 (by decide +kernel)
  exact (advances_iff (s := ready "0") (q := ⟨Consumer.run .empty, ∅, 0, .between⟩) rfl rfl rfl
    rfl readable (measured_matches "0")).2.1.2 encodable

/-- A NaN stops the consumer at the COMMIT, and stops the next one there too. -/
theorem measured_nan_stuck :
    (measured "NaN").Readable ∧ Txn.Matches ∅ (measured "NaN").body ∧
      (measured "NaN").stored float8 noExotic = none ∧
      ((machine float8 noExotic).run (ready "NaN")
        [.deliver .begin, .deliver (.relation measures), .deliver .row, .deliver .commit,
          .start 0, .deliver .begin, .deliver (.relation measures), .deliver .row,
          .deliver .commit]).map (fun s => (s.session.isSome, s.db.checkpoint)) =
        some (false, none) :=
  ⟨by decide, measured_matches "NaN", by decide +kernel, by decide +kernel⟩

end Measures

end Tether.Durability
