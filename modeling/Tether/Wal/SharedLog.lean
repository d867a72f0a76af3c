/-
# Tether.Wal.SharedLog — two consumers under one consumer id

Every engine runs its consumer as `tether-engine`.  Two engines on one database, with
a slot and a publication each, therefore share the rows of `change_log`: the UNIQUE key
is the consumer id, the LSN of the transaction and `seq`, and `seq` is the index of
a change among those the engine's own publication shows of the transaction.

A `persist` is one database transaction.  Two of them insert the same keys only for
one source transaction, and there the second waits on the first conflicting key until
the first one ended, so they run one after the other.

`shared_log_iff` is exact: a suppressed insert is a replay, and nothing that was
persisted is missing, for every interleaving, exactly when the two views of each
transaction agree wherever both have an entry.
-/
import Tether.Lib.Machine
import Tether.Wal.ChangeLog

namespace Tether.SharedLog

open Tether.Lib Tether.Wal

set_option autoImplicit false

/-- A committed source transaction, with its changes as they are stored. -/
structure Txn where
  lsn : LSN
  xid : Nat
  changes : List StoredChange
  deriving DecidableEq

/-- `CREATE PUBLICATION … FOR TABLE …`: schemas and tables. -/
structure Publication where
  tables : List (String × String)

/-- What a consumer of the publication decodes of the transaction. -/
def Publication.view (p : Publication) (t : Txn) : List StoredChange :=
  t.changes.filter fun ch => p.tables.contains (ch.schema, ch.table)

/-- One of the two engines. -/
inductive Side where
  | first
  | second
  deriving DecidableEq

/-- The transactions of the source, one for each LSN, and the two publications. -/
structure Setup where
  source : List Txn
  publication : Side → Publication
  positions : ∀ t ∈ source, ∀ t' ∈ source, t.lsn = t'.lsn → t = t'

def Setup.view (cfg : Setup) (side : Side) (t : Txn) : List StoredChange :=
  (cfg.publication side).view t

/-- `persisted` lists the transactions whose `persist` has committed. -/
structure State where
  db : Database
  persisted : List (Side × Txn)

inductive Event where
  | persist (side : Side) (t : Txn)
  /-- A `persist` that was rolled back after it drew some ids. -/
  | rollback (ids : Nat)

variable (cfg : Setup)

def step (s : State) : Event → Option State
  | .persist side t =>
      if t ∈ cfg.source then
        some ⟨s.db.persist t.lsn t.xid (cfg.view side t), s.persisted ++ [(side, t)]⟩
      else none
  | .rollback ids => some { s with db := s.db.burn ids }

def initial : State := ⟨.empty, []⟩

def machine : Machine State Event := ⟨(· = initial), step cfg⟩

/-- The same table, operation and rows. -/
def SameChange (a b : StoredChange) : Prop :=
  a.schema = b.schema ∧ a.table = b.table ∧ a.op = b.op ∧ a.old = b.old ∧ a.new = b.new

instance (a b : StoredChange) : Decidable (SameChange a b) :=
  inferInstanceAs (Decidable (_ ∧ _ ∧ _ ∧ _ ∧ _))

/-- The inserts that `ON CONFLICT` suppresses, each with the row that is in its way. -/
def suppressed (db : Database) : List LogEntry → List (LogEntry × LogEntry)
  | [] => []
  | e :: es =>
      ((db.entries.filter fun stored => stored.key = e.key).map fun stored => (stored, e)) ++
        suppressed (db.insertRow e) es

/-- Every insert the step suppresses is a replay of the row that is stored. -/
def DropsReplays (s : State) : Event → Prop
  | .persist side t =>
      ∀ p ∈ suppressed s.db (logEntries t.lsn t.xid 0 (cfg.view side t)),
        SameChange p.1.change p.2.change
  | .rollback _ => True

/-- Every change of a persisted transaction is in the log. -/
def HoldsAll (s : State) : Prop :=
  ∀ p ∈ s.persisted, ∀ ch ∈ cfg.view p.1 p.2,
    ∃ e ∈ s.db.entries, e.lsn = p.2.lsn ∧ SameChange e.change ch

/-- Where both publications show something at an index of a transaction, it is the
same change. -/
def Agree : Prop :=
  ∀ t ∈ cfg.source, ∀ (side side' : Side) (i : Nat) (x y : StoredChange),
    (cfg.view side t)[i]? = some x → (cfg.view side' t)[i]? = some y → SameChange x y

/-! ## Suppressed inserts -/

theorem entries_insertRow (db : Database) (e : LogEntry) :
    db.entries ⊆ (db.insertRow e).entries := by
  intro old member
  unfold Database.insertRow
  split
  · exact member
  · rw [Database.entries_insert]
    exact List.mem_append_left _ member

/-- A row in the way of one insert of several is in its way when its turn comes. -/
theorem mem_suppressed {db : Database} {es : List LogEntry} {stored e : LogEntry}
    (held : stored ∈ db.entries) (member : e ∈ es) (same : stored.key = e.key) :
    (stored, e) ∈ suppressed db es := by
  induction es generalizing db with
  | nil => cases member
  | cons e' es ih =>
      rw [suppressed, List.mem_append]
      rcases List.mem_cons.1 member with rfl | later
      · refine Or.inl (List.mem_map.2 ⟨stored, ?_, rfl⟩)
        exact List.mem_filter.2 ⟨held, decide_eq_true same⟩
      · exact Or.inr (ih (entries_insertRow db e' held) later)

/-- Rows of one `persist` have distinct keys, so only rows that were stored before are in
the way. -/
theorem suppressed_stored {db : Database} {es : List LogEntry}
    (distinct : (es.map LogEntry.key).Nodup) {p : LogEntry × LogEntry}
    (member : p ∈ suppressed db es) : p.1 ∈ db.entries ∧ p.2 ∈ es ∧ p.1.key = p.2.key := by
  induction es generalizing db with
  | nil => cases member
  | cons e es ih =>
      obtain ⟨first, rest⟩ := List.nodup_cons.1 distinct
      rcases List.mem_append.1 member with here | later
      · obtain ⟨stored, conflict, rfl⟩ := List.mem_map.1 here
        obtain ⟨held, same⟩ := List.mem_filter.1 conflict
        exact ⟨held, List.mem_cons_self, of_decide_eq_true same⟩
      · obtain ⟨held, among, same⟩ := ih rest later
        refine ⟨?_, List.mem_cons_of_mem _ among, same⟩
        unfold Database.insertRow at held
        split at held
        · exact held
        · rw [Database.entries_insert] at held
          rcases List.mem_append.1 held with old | new
          · exact old
          · have clash : e.key = p.2.key := (List.mem_singleton.1 new) ▸ same
            exact absurd (clash ▸ List.mem_map_of_mem among) first

/-! ## Where rows come from -/

/-- Every stored row is one of the views' own, and every persisted change is stored at
its index. -/
structure Inv (s : State) : Prop where
  source : ∀ e ∈ s.db.entries, ∃ side, ∃ t ∈ cfg.source, e.lsn = t.lsn ∧
    (cfg.view side t)[e.seq]? = some e.change
  held : ∀ p ∈ s.persisted, ∀ i ch, (cfg.view p.1 p.2)[i]? = some ch →
    ∃ e ∈ s.db.entries, e.key = (p.2.lsn, i) ∧ SameChange e.change ch

variable {cfg}

theorem SameChange.refl (a : StoredChange) : SameChange a a := ⟨rfl, rfl, rfl, rfl, rfl⟩

/-- With views that agree, a row stored under the key of a change describes it. -/
theorem Inv.same (agree : Agree cfg) {s : State} (inv : Inv cfg s) {side : Side} {t : Txn}
    (known : t ∈ cfg.source) {e : LogEntry} (stored : e ∈ s.db.entries) {i : Nat}
    {ch : StoredChange} (here : (cfg.view side t)[i]? = some ch) (key : e.key = (t.lsn, i)) :
    SameChange e.change ch := by
  obtain ⟨side', t', known', lsn, theirs⟩ := inv.source e stored
  obtain ⟨position, rfl⟩ := Prod.mk.inj key
  rw [cfg.positions t' known' t known (lsn.symm.trans position)] at theirs
  exact agree t known side' side e.seq e.change ch theirs here

theorem Inv.dropsReplays (agree : Agree cfg) {s t : State} {ev : Event} (inv : Inv cfg s)
    (stepped : step cfg s ev = some t) : DropsReplays cfg s ev := by
  cases ev with
  | rollback _ => trivial
  | persist side t =>
      have known : t ∈ cfg.source := (Option.ite_none_right_eq_some.1 stepped).1
      intro p member
      obtain ⟨held, among, same⟩ := suppressed_stored (nodup_logEntries _ _ _ _) member
      obtain ⟨i, ch, here, entry⟩ := mem_logEntries.1 among
      rw [Nat.zero_add] at entry
      rw [entry] at same ⊢
      exact inv.same agree known held here same

theorem inv_step (agree : Agree cfg) {s t : State} {ev : Event} (inv : Inv cfg s)
    (stepped : step cfg s ev = some t) : Inv cfg t := by
  cases ev with
  | rollback ids =>
      cases stepped
      exact ⟨inv.source, inv.held⟩
  | persist side t =>
      obtain ⟨known, rfl⟩ := Option.ite_none_right_eq_some.1 stepped |>.imp id Option.some.inj
      have grows : ∀ e ∈ s.db.entries,
          e ∈ (s.db.persist t.lsn t.xid (cfg.view side t)).entries := by
        intro e member
        rw [Database.entries_persist]
        exact List.mem_append_left _ member
      constructor
      · intro e member
        rw [Database.entries_persist] at member
        rcases List.mem_append.1 member with old | new
        · exact inv.source e old
        · obtain ⟨i, ch, here, rfl⟩ := mem_logEntries.1 (List.mem_filter.1 new).1
          exact ⟨side, t, known, rfl, by simpa using here⟩
      · intro p member i ch here
        rcases List.mem_append.1 member with old | new
        · obtain ⟨e, stored, key, same⟩ := inv.held p old i ch here
          exact ⟨e, grows e stored, key, same⟩
        · cases List.mem_singleton.1 new
          -- the row is already there, and then describes this change, or it is inserted now
          by_cases conflict : (t.lsn, i) ∈ s.db.entries.map LogEntry.key
          · obtain ⟨e, stored, key⟩ := List.mem_map.1 conflict
            exact ⟨e, grows e stored, key, inv.same agree known stored here key⟩
          · refine ⟨⟨t.lsn, t.xid, i, ch⟩, ?_, rfl, SameChange.refl ch⟩
            rw [Database.entries_persist]
            refine List.mem_append_right _ (List.mem_filter.2 ⟨?_, decide_eq_true conflict⟩)
            exact mem_logEntries.2 ⟨i, ch, here, by rw [Nat.zero_add]⟩

theorem inv_initial : Inv cfg initial where
  source e member := by cases member
  held p member := by cases member

theorem Inv.holdsAll {s : State} (inv : Inv cfg s) : HoldsAll cfg s := by
  intro p member ch inView
  obtain ⟨i, here⟩ := List.mem_iff_getElem?.1 inView
  obtain ⟨e, stored, key, same⟩ := inv.held p member i ch here
  exact ⟨e, stored, congrArg Prod.fst key, same⟩

/-- Let one engine persist a transaction and then the other: the rows of the first are in
the way of the second's. -/
theorem agree_of_dropsReplays
    (drops : ∀ es, (machine cfg).Meets (DropsReplays cfg) initial es) : Agree cfg := by
  intro t known side side' i x y here here'
  have first : step cfg initial (.persist side t) =
      some ⟨Database.empty.persist t.lsn t.xid (cfg.view side t), [(side, t)]⟩ := if_pos known
  have second := ((drops [.persist side t, .persist side' t] _ first).2 _ (if_pos known)).1
  refine second (⟨t.lsn, t.xid, 0 + i, x⟩, ⟨t.lsn, t.xid, 0 + i, y⟩) (mem_suppressed ?_ ?_ rfl)
  · rw [Database.persist_fresh _ _ fun e member => by cases member]
    exact List.mem_append_right _ (mem_logEntries.2 ⟨i, x, here, rfl⟩)
  · exact mem_logEntries.2 ⟨i, y, here', rfl⟩

/-- **Only replays are dropped, and nothing is lost, exactly when the views agree.** -/
theorem shared_log_iff (cfg : Setup) :
    (∀ es, (machine cfg).Meets (DropsReplays cfg) initial es ∧
        (machine cfg).Along (HoldsAll cfg) initial es) ↔ Agree cfg := by
  constructor
  · intro laws
    exact agree_of_dropsReplays fun es => (laws es).1
  · intro agree es
    have kept : (machine cfg).Meets (fun _ _ => True) initial es :=
      Machine.meets_of_forall (fun _ _ => trivial) initial
    refine ⟨?_, ?_⟩
    · exact Machine.Meets.imp (I := Inv cfg)
        (fun s ev t inv _ stepped => inv_step agree inv stepped)
        (fun s ev t inv _ stepped => inv.dropsReplays agree stepped) inv_initial kept
    · exact Machine.along_of_meets (I := Inv cfg) (fun s inv => inv.holdsAll)
        (fun s ev t inv _ stepped => inv_step agree inv stepped) inv_initial kept

/-! A transaction that inserts into two tables: one engine publishes both, in the other's
publication only the second is. -/

namespace Shop

def inserted (table : String) (id : Int64) : StoredChange :=
  ⟨"public", table, "insert", "v1", none, some (KeyMap.ofList [("id", .integer id)])⟩

def order : Txn := ⟨100, 7, [inserted "orders" 1, inserted "items" 2]⟩

def shop (tables : List (String × String)) : Setup where
  source := [order]
  publication
    | .first => ⟨[("public", "items")]⟩
    | .second => ⟨tables⟩
  positions := by
    intro t member t' member' _
    rw [List.mem_singleton.1 member, List.mem_singleton.1 member']

/-- The second engine's row for `orders` has the key of the first one's for `items`. -/
theorem order_lost :
    ((machine (shop [("public", "orders"), ("public", "items")])).run initial
        [.persist .first order, .persist .second order]).map
        (fun s => s.db.entries.map fun e => (e.seq, e.change)) =
        some [(0, inserted "items" 2), (1, inserted "items" 2)] ∧
      ¬ (machine (shop [("public", "orders"), ("public", "items")])).Along
        (HoldsAll (shop [("public", "orders"), ("public", "items")])) initial
        [.persist .first order, .persist .second order] := by
  have replayed : ((machine (shop [("public", "orders"), ("public", "items")])).run initial
      [.persist .first order, .persist .second order]).map
      (fun s => s.db.entries.map fun e => (e.seq, e.change)) =
      some [(0, inserted "items" 2), (1, inserted "items" 2)] := by decide
  refine ⟨replayed, fun along => ?_⟩
  obtain ⟨s, ran, entries⟩ := Option.map_eq_some_iff.1 replayed
  have persisted : ((machine (shop [("public", "orders"), ("public", "items")])).run initial
      [.persist .first order, .persist .second order]).map State.persisted =
      some [(.first, order), (.second, order)] := by decide
  rw [ran, Option.map_some, Option.some.injEq] at persisted
  obtain ⟨e, stored, -, same⟩ := along.last ran (.second, order) (by simp [persisted])
    (inserted "orders" 1) (by decide)
  have member : (e.seq, e.change) ∈ [(0, inserted "items" 2), (1, inserted "items" 2)] :=
    entries ▸ List.mem_map_of_mem stored
  have wrong : e.change = inserted "items" 2 := by
    simp only [List.mem_cons, Prod.mk.injEq, List.not_mem_nil, or_false] at member
    rcases member with ⟨-, here⟩ | ⟨-, here⟩ <;> exact here
  rw [wrong] at same
  exact absurd same (by decide)

end Shop

end Tether.SharedLog
