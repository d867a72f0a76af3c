/-
# Tether.Wal.Durability — persist, then acknowledge, across crashes

`State.Durable` is what `change_log` promises after any run of the replication
machine: nothing acknowledged is missing, nothing is stored twice, and the ids are in
commit and message order.

The invariant is one number, `persisted`: `change_log` is the first `persisted`
transactions, written out in order.  Everything the consumer acknowledges, starts from
or has in flight stays at or below it, so what is delivered again finds its rows
there, and what is new goes to the end.
-/
import Tether.Lib.Lists
import Tether.Wal.Replication

namespace Tether.Durability

open Tether.Lib Tether.Wal

set_option autoImplicit false

section Machine

variable (types : Types) (exotic : Value → Option Json)

/-! ## What `change_log` is for -/

/-- What is to be stored for a row message; `none` when it cannot be. -/
def storedItem (item : Item) : Option StoredChange :=
  (item.2.decode types item.1.relationMeta).toOption.bind (Change.store exotic)

def Txn.stored (t : Txn) : Option (List StoredChange) := t.body.mapM (storedItem types exotic)

def Txn.entries (t : Txn) : List LogEntry :=
  logEntries t.endLSN t.xid 0 ((t.stored types exotic).getD [])

/-- Every change of `t` is in `change_log`, once, with the ids in message order. -/
def State.Holds (s : State) (t : Txn) : Prop :=
  (t.stored types exotic).isSome ∧
    s.db.entries.filter (fun e => e.lsn = t.endLSN) = t.entries types exotic

/-- Nothing acknowledged is missing, nothing is there twice, and the ids list the
changes of a first part of the transactions in commit and message order. -/
structure State.Durable (s : State) : Prop where
  acked : ∀ a ∈ s.acks, a ≠ 0 → ∃ t ∈ s.txns, a ≤ t.endLSN ∧ s.Holds types exotic t
  complete : ∀ a ∈ s.acks, ∀ t ∈ s.txns, t.endLSN ≤ a → s.Holds types exotic t
  listed : ∃ n, s.db.entries = (s.txns.take n).flatMap (Txn.entries types exotic)
  ids : s.db.rows.Pairwise fun r r' => r.id < r'.id

/-! ## The invariant -/

/-- `a` is no position, or one that the transactions `done` reach. -/
def Covered (done : List Txn) (a : LSN) : Prop := a = 0 ∨ ∃ t ∈ done, a ≤ t.endLSN

/-- `x` is the durable transaction for `t`. -/
structure Persist.For (x : Persist) (t : Txn) : Prop where
  lsn : x.lsn = t.endLSN
  xid : x.xid = t.xid
  changes : t.stored types exotic = some x.changes

/-- The pending changes are those of the messages already read. -/
structure Reading (c : Consumer) (t : Txn) (rest : List Item) : Prop where
  xid : c.curXid = t.xid
  pending : ∃ read, t.body = read ++ rest ∧
    List.Forall₂ (fun item ch => item.2.decode types item.1.relationMeta = .ok ch) read c.pending

/-- What a session in position `pos` knows about the transaction `t` it is at. -/
def Placed (s : State) (persisted : Nat) (q : Session) (t : Txn) : Position → Prop
  | .between => False
  | .inside rest => Reading types q.consumer t rest
  | .persisting => ∃ x, s.inflight = some x ∧ x.For types exotic t
  | .persisted lsn => q.cursor < persisted ∧ lsn = t.endLSN

structure SessionInv (s : State) (persisted : Nat) (q : Session) : Prop where
  cursor : q.cursor ≤ persisted
  durable : Covered (s.txns.take persisted) q.consumer.durable
  announced : ∀ id rel, q.sent.lookup id = some rel →
    q.consumer.rels.lookup id = some rel.relationMeta
  placed : q.position = .between ∨
    ∃ t, s.txns[q.cursor]? = some t ∧ Placed types exotic s persisted q t q.position

/-- `change_log` is the first `persisted` transactions. -/
structure Logged (txns : List Txn) (db : Database) (persisted : Nat) : Prop where
  bound : persisted ≤ txns.length
  storable : ∀ t ∈ txns.take persisted, (t.stored types exotic).isSome
  log : db.entries = (txns.take persisted).flatMap (Txn.entries types exotic)

structure Inv (s : State) (persisted : Nat) : Prop where
  increasing : s.txns.Pairwise fun t t' => t.endLSN < t'.endLSN
  positive : ∀ t ∈ s.txns, 0 < t.endLSN
  logged : Logged types exotic s.txns s.db persisted
  acks : ∀ a ∈ s.acks, Covered (s.txns.take persisted) a
  checkpoint : Covered (s.txns.take persisted) (Consumer.resolveStartLSN s.db)
  inflight : ∀ x, s.inflight = some x →
    ∃ j t, j ≤ persisted ∧ s.txns[j]? = some t ∧ x.For types exotic t
  session : ∀ q, s.session = some q → SessionInv types exotic s persisted q

theorem Covered.mono {done done' : List Txn} {a : LSN} (covered : Covered done a)
    (more : done ⊆ done') : Covered done' a :=
  covered.imp_right fun ⟨t, member, le⟩ => ⟨t, more member, le⟩

variable {types exotic}

theorem Txn.lsn_of_mem_entries {t : Txn} {e : LogEntry} (member : e ∈ t.entries types exotic) :
    e.lsn = t.endLSN :=
  (logEntries_lsn member).1

theorem Persist.For.entries {x : Persist} {t : Txn} (ours : x.For types exotic t) :
    t.entries types exotic = logEntries x.lsn x.xid 0 x.changes := by
  rw [Txn.entries, ours.changes, ours.lsn, ours.xid, Option.getD_some]

/-- All rows of one transaction of the log are the rows with its end LSN. -/
theorem filter_flatMap_entries {txns : List Txn}
    (increasing : txns.Pairwise fun t t' => t.endLSN < t'.endLSN) {t : Txn} (member : t ∈ txns) :
    (txns.flatMap (Txn.entries types exotic)).filter (fun e => e.lsn = t.endLSN) =
      t.entries types exotic := by
  have others : ∀ ts : List Txn, (∀ t' ∈ ts, t'.endLSN ≠ t.endLSN) →
      (ts.flatMap (Txn.entries types exotic)).filter (fun e => e.lsn = t.endLSN) = [] := by
    intro ts differ
    refine List.filter_eq_nil_iff.2 fun e inside => ?_
    obtain ⟨t', member', entry⟩ := List.mem_flatMap.1 inside
    simpa [Txn.lsn_of_mem_entries entry] using differ t' member'
  have own : (t.entries types exotic).filter (fun e => e.lsn = t.endLSN) =
      t.entries types exotic :=
    List.filter_eq_self.2 fun e inside => by simp [Txn.lsn_of_mem_entries inside]
  obtain ⟨before, after, rfl⟩ := List.append_of_mem member
  obtain ⟨-, later, earlier⟩ := List.pairwise_append.1 increasing
  rw [List.flatMap_append, List.flatMap_cons, List.filter_append, List.filter_append, own,
    others before fun t' here => (earlier t' here t List.mem_cons_self).ne,
    others after fun t' here => ((List.pairwise_cons.1 later).1 t' here).ne',
    List.nil_append, List.append_nil]

theorem Inv.holds {s : State} {n : Nat} (inv : Inv types exotic s n) {t : Txn}
    (member : t ∈ s.txns.take n) : s.Holds types exotic t := by
  refine ⟨inv.logged.storable t member, ?_⟩
  rw [inv.logged.log]
  exact filter_flatMap_entries (inv.increasing.sublist (List.take_sublist _ _)) member

theorem Inv.durable {s : State} {n : Nat} (inv : Inv types exotic s n) :
    s.Durable types exotic where
  acked a sent nonzero := by
    obtain zero | ⟨t, member, le⟩ := inv.acks a sent
    · exact absurd zero nonzero
    · exact ⟨t, List.mem_of_mem_take member, le, inv.holds member⟩
  complete a sent t member le := by
    obtain zero | ⟨t', first, reach⟩ := inv.acks a sent
    · exact absurd (le.trans zero.le) (Nat.not_le.2 (inv.positive t member))
    · exact inv.holds (mem_take_of_le inv.increasing member first (le.trans reach))
  listed := ⟨n, inv.logged.log⟩
  ids := s.db.ordered

/-! ## Steps -/

/-- A durable transaction for one of the first transactions, or for the next one,
leaves `change_log` a first part of the transactions that has it. -/
theorem Logged.persist {txns : List Txn} {db : Database} {n j : Nat} {x : Persist} {t : Txn}
    (logged : Logged types exotic txns db n)
    (increasing : txns.Pairwise fun t t' => t.endLSN < t'.endLSN)
    (near : j ≤ n) (at_j : txns[j]? = some t) (ours : x.For types exotic t) :
    ∃ n', n ≤ n' ∧ j < n' ∧
      Logged types exotic txns (db.persist x.lsn x.xid x.changes) n' := by
  obtain ⟨inside, rfl⟩ := List.getElem?_eq_some_iff.1 at_j
  rcases near.lt_or_eq with earlier | rfl
  · refine ⟨n, le_refl n, earlier, logged.bound, logged.storable, ?_⟩
    rw [Database.persist_known, logged.log]
    intro e asked
    rw [logged.log]
    refine List.mem_flatMap.2 ⟨txns[j], List.mem_take_iff_getElem.2 ⟨j, by omega, rfl⟩, ?_⟩
    rwa [ours.entries]
  · have grown : txns.take (j + 1) = txns.take j ++ [txns[j]] := by simp
    refine ⟨j + 1, Nat.le_succ j, Nat.lt_succ_self j, inside, ?_, ?_⟩
    · intro t member
      rw [grown, List.mem_append, List.mem_singleton] at member
      rcases member with old | rfl
      · exact logged.storable t old
      · rw [ours.changes]
        rfl
    · rw [Database.persist_fresh, logged.log, grown, List.flatMap_append, List.flatMap_singleton,
        ours.entries]
      intro e stored
      rw [logged.log] at stored
      obtain ⟨t, first, entry⟩ := List.mem_flatMap.1 stored
      rw [Txn.lsn_of_mem_entries entry, ours.lsn]
      exact (rank_lt_of_mem_take increasing inside first).ne

theorem stored_of_decoded {items : List Item} {pending : List Change} {lsn : LSN}
    {changes : List StoredChange}
    (decoded : List.Forall₂ (fun item ch => item.2.decode types item.1.relationMeta = .ok ch)
      items pending)
    (stored : (pending.map fun ch => { ch with commitLSN := lsn }).mapM (Change.store exotic) =
      some changes) :
    items.mapM (storedItem types exotic) = some changes := by
  rw [mapM_eq_some_iff, List.forall₂_map_left_iff] at stored
  rw [mapM_eq_some_iff]
  induction decoded generalizing changes with
  | nil =>
      cases stored
      exact .nil
  | cons here rest ih =>
      cases stored with
      | cons first others =>
          refine .cons ?_ (ih others)
          rw [storedItem, here]
          exact first

/-- What a step must do to a session to keep its part of the invariant: the rest of
the state may only have grown. -/
theorem SessionInv.grow {s s' : State} {n n' : Nat} {q : Session}
    (inv : SessionInv types exotic s n q) (more : n ≤ n')
    (txns : ∀ (i : Nat) t, s.txns[i]? = some t → s'.txns[i]? = some t)
    (done : s.txns.take n ⊆ s'.txns.take n')
    (inflight : q.position = .persisting → s'.inflight = s.inflight) :
    SessionInv types exotic s' n' q where
  cursor := inv.cursor.trans more
  durable := inv.durable.mono done
  announced := inv.announced
  placed := by
    refine inv.placed.imp_right fun ⟨t, here, placed⟩ => ⟨t, txns _ _ here, ?_⟩
    cases position : q.position with
    | between => rwa [position] at placed
    | inside rest => rwa [position] at placed
    | persisting =>
        rw [position] at placed
        obtain ⟨x, flying, ours⟩ := placed
        exact ⟨x, (inflight position).trans flying, ours⟩
    | persisted lsn =>
        rw [position] at placed
        exact ⟨placed.1.trans_le more, placed.2⟩

theorem inv_source {s : State} {n : Nat} {t : Txn} (inv : Inv types exotic s n)
    (positive : 0 < t.endLSN) (last : ∀ t' ∈ s.txns, t'.endLSN < t.endLSN) :
    Inv types exotic { s with txns := s.txns ++ [t] } n := by
  have same : (s.txns ++ [t]).take n = s.txns.take n :=
    List.take_append_of_le_length inv.logged.bound
  have kept : ∀ (i : Nat) t', s.txns[i]? = some t' → (s.txns ++ [t])[i]? = some t' :=
    fun _ _ here => getElem?_append_of_some here [t]
  exact {
    increasing := by
      refine List.pairwise_append.2 ⟨inv.increasing, List.pairwise_singleton _ _, ?_⟩
      intro t' member _ new
      cases List.mem_singleton.1 new
      exact last t' member
    positive := by
      intro t' member
      rcases List.mem_append.1 member with old | new
      · exact inv.positive t' old
      · cases List.mem_singleton.1 new
        exact positive
    logged := {
      bound := inv.logged.bound.trans (by simp)
      storable := by simpa only [same] using inv.logged.storable
      log := by simpa only [same] using inv.logged.log }
    acks := by simpa only [same] using inv.acks
    checkpoint := by simpa only [same] using inv.checkpoint
    inflight := fun x flying => by
      obtain ⟨j, t', near, here, ours⟩ := inv.inflight x flying
      exact ⟨j, t', near, kept j t' here, ours⟩
    session := fun q running =>
      (inv.session q running).grow (le_refl n) kept
        (by rw [same]; exact List.Subset.refl _) fun _ => rfl }

theorem inv_stop {s : State} {n : Nat} (inv : Inv types exotic s n) :
    Inv types exotic { s with session := none } n :=
  { inv with session := fun _ running => nomatch running }

theorem inv_start {s : State} {n cursor : Nat} (inv : Inv types exotic s n)
    (skip : s.skippable cursor) :
    Inv types exotic { s with session := some ⟨Consumer.run s.db, ∅, cursor, .between⟩ } n := by
  have covered : ∀ t ∈ s.txns.take cursor, ∃ t' ∈ s.txns.take n, t.endLSN ≤ t'.endLSN := by
    intro t member
    have above : ∃ a, Covered (s.txns.take n) a ∧ t.endLSN ≤ a := by
      rcases skip.2 t member with start | ⟨a, sent, le⟩
      · exact ⟨_, inv.checkpoint, start⟩
      · exact ⟨a, inv.acks a sent, le⟩
    obtain ⟨a, zero | ⟨t', first, reach⟩, le⟩ := above
    · have positive := inv.positive t (List.mem_of_mem_take member)
      exact absurd (le.trans zero.le) (Nat.not_le.2 positive)
    · exact ⟨t', first, le.trans reach⟩
  refine { inv with session := fun q running => ?_ }
  cases running
  exact {
    cursor := le_of_take_le inv.increasing skip.1 covered
    durable := inv.checkpoint
    announced := fun id rel sent => by simp at sent
    placed := .inl rfl }

/-- The transaction in flight is one of the first or the next; if a process waits for
it, it is the one the process is at. -/
theorem Inv.flying {s : State} {n : Nat} {x : Persist} (inv : Inv types exotic s n)
    (flying : s.inflight = some x) :
    ∃ j t, j ≤ n ∧ s.txns[j]? = some t ∧ x.For types exotic t ∧
      ∀ q, s.session = some q → q.position = .persisting → q.cursor = j := by
  by_cases waiting : ∃ q, s.session = some q ∧ q.position = .persisting
  · obtain ⟨q, running, position⟩ := waiting
    have session := inv.session q running
    obtain between | ⟨t, here, placed⟩ := session.placed
    · cases position.symm.trans between
    · rw [position] at placed
      obtain ⟨x', flying', ours⟩ := placed
      cases flying.symm.trans flying'
      refine ⟨q.cursor, t, session.cursor, here, ours, fun q' running' _ => ?_⟩
      cases running.symm.trans running'
      rfl
  · obtain ⟨j, t, near, here, ours⟩ := inv.inflight x flying
    exact ⟨j, t, near, here, ours, fun q running position =>
      absurd ⟨q, running, position⟩ waiting⟩

theorem inv_rollback {s : State} {n : Nat} {x : Persist} (inv : Inv types exotic s n) :
    Inv types exotic (s.settle x false) n :=
  { inv with
    inflight := fun _ flying => nomatch flying
    session := fun q' running' => by
      obtain ⟨q, running, kept⟩ := Option.bind_eq_some_iff.1 running'
      split at kept
      · cases kept
      · next position =>
          cases kept
          exact (inv.session _ running).grow (le_refl n) (fun _ _ here => here)
            (List.Subset.refl _) fun waiting => absurd waiting position }

theorem inv_committed {s : State} {n : Nat} {x : Persist} (inv : Inv types exotic s n)
    (flying : s.inflight = some x) : ∃ n', Inv types exotic (s.settle x true) n' := by
  obtain ⟨j, t, near, here, ours, waits⟩ := inv.flying flying
  obtain ⟨n', more, beyond, logged⟩ := inv.logged.persist inv.increasing near here ours
  have done : s.txns.take n ⊆ s.txns.take n' := (List.take_prefix_take_left more).subset
  have first : t ∈ s.txns.take n' := by
    obtain ⟨inside, rfl⟩ := List.getElem?_eq_some_iff.1 here
    exact List.mem_take_iff_getElem.2 ⟨j, by omega, rfl⟩
  refine ⟨n', {
    increasing := inv.increasing
    positive := inv.positive
    logged := logged
    acks := fun a sent => (inv.acks a sent).mono done
    checkpoint := .inr ⟨t, first, ours.lsn.le⟩
    inflight := fun _ flying => nomatch flying
    session := fun q' running' => ?_ }⟩
  obtain ⟨q, running, kept⟩ := Option.bind_eq_some_iff.1 running'
  have session := inv.session q running
  split at kept
  · next position =>
      cases kept
      cases waits q running position
      exact {
        cursor := session.cursor.trans more
        durable := session.durable.mono done
        announced := session.announced
        placed := .inr ⟨t, here, beyond, ours.lsn⟩ }
  · next position =>
      cases kept
      exact session.grow more (fun _ _ here => here) done fun waiting => absurd waiting position

theorem inv_ack {s : State} {n : Nat} {q : Session} {lsn : LSN} (inv : Inv types exotic s n)
    (running : s.session = some q) (position : q.position = .persisted lsn) :
    Inv types exotic
      { s with
        acks := s.acks ++ [lsn]
        session := some { q with
          consumer := q.consumer.acknowledge lsn
          cursor := q.cursor + 1
          position := .between } } n := by
  have session := inv.session q running
  obtain between | ⟨t, here, placed⟩ := session.placed
  · cases position.symm.trans between
  rw [position] at placed
  obtain ⟨before, rfl⟩ := placed
  obtain ⟨inside, rfl⟩ := List.getElem?_eq_some_iff.1 here
  have reached : Covered (s.txns.take n) s.txns[q.cursor].endLSN :=
    .inr ⟨_, List.mem_take_iff_getElem.2 ⟨q.cursor, by omega, rfl⟩, le_refl _⟩
  refine { inv with
    acks := fun a sent => ?_
    session := fun q' running' => ?_ }
  · rcases List.mem_append.1 sent with old | new
    · exact inv.acks a old
    · cases List.mem_singleton.1 new
      exact reached
  · cases running'
    exact {
      cursor := before
      durable := reached
      announced := session.announced
      placed := .inl rfl }

theorem inv_status {s : State} {n : Nat} {q : Session} (inv : Inv types exotic s n)
    (running : s.session = some q) :
    Inv types exotic { s with acks := s.acks ++ [q.consumer.durable] } n := by
  refine { inv with
    acks := fun a sent => ?_
    session := fun q' running' => (inv.session q' running').grow (le_refl n)
      (fun _ _ here => here) (List.Subset.refl _) fun _ => rfl }
  rcases List.mem_append.1 sent with old | new
  · exact inv.acks a old
  · cases List.mem_singleton.1 new
    exact (inv.session q running).durable

theorem SessionInv.reading {s : State} {n : Nat} {q : Session} {rest : List Item}
    (inv : SessionInv types exotic s n q) (position : q.position = .inside rest) :
    ∃ t, s.txns[q.cursor]? = some t ∧ Reading types q.consumer t rest := by
  obtain between | ⟨t, here, placed⟩ := inv.placed
  · cases position.symm.trans between
  · rw [position] at placed
    exact ⟨t, here, placed⟩

theorem Reading.row {c : Consumer} {t : Txn} {rel : RelationMessage} {m : RowMessage}
    {rest : List Item} {ch : Change} (reading : Reading types c t ((rel, m) :: rest))
    (decoded : m.decode types rel.relationMeta = .ok ch) :
    Reading types { c with pending := c.pending ++ [ch] } t rest := by
  obtain ⟨xid, read, body, pending⟩ := reading
  exact ⟨xid, read ++ [(rel, m)], by simp [body], List.rel_append pending (.cons decoded .nil)⟩

/-- A relation message is announced to the consumer as Postgres sent it. -/
theorem SessionInv.announce {s : State} {n : Nat} {q : Session}
    (inv : SessionInv types exotic s n q) (m : RelationMessage) (id : Nat) (rel : RelationMessage)
    (found : (q.sent.insert m.relationID m).lookup id = some rel) :
    (q.consumer.rels.insert m.relationID m.relationMeta).lookup id = some rel.relationMeta := by
  rw [KeyMap.lookup_insert_eq] at found ⊢
  by_cases own : id = m.relationID
  · rw [if_pos own] at found ⊢
    cases found
    rfl
  · rw [if_neg own] at found ⊢
    exact inv.announced id rel found

theorem SessionInv.relation {s : State} {n : Nat} {q : Session} {c : Consumer}
    {rest : List Item} {m : RelationMessage} (inv : SessionInv types exotic s n q)
    (position : q.position = .inside rest) (accepted : q.consumer.handleRelation m = .ok c) :
    SessionInv types exotic s n
      { q with consumer := c, sent := q.sent.insert m.relationID m } := by
  cases Consumer.handleRelation_ok accepted
  obtain ⟨t, here, reading⟩ := inv.reading position
  exact {
    cursor := inv.cursor
    durable := inv.durable
    announced := inv.announce m
    placed := .inr ⟨t, here, by
      rw [position]
      exact ⟨reading.xid, reading.pending⟩⟩ }

theorem SessionInv.row {s : State} {n : Nat} {q : Session} {rest : List Item}
    {rel : RelationMessage} {m : RowMessage} {ch : Change} (inv : SessionInv types exotic s n q)
    (position : q.position = .inside ((rel, m) :: rest))
    (decoded : m.decode types rel.relationMeta = .ok ch) :
    SessionInv types exotic s n
      { q with
        consumer := { q.consumer with pending := q.consumer.pending ++ [ch] }
        position := .inside rest } := by
  obtain ⟨t, here, reading⟩ := inv.reading position
  exact {
    cursor := inv.cursor
    durable := inv.durable
    announced := inv.announced
    placed := .inr ⟨t, here, reading.row decoded⟩ }

/-- A message after which the loop goes on. -/
theorem SessionInv.next {s : State} {n : Nat} {q q' : Session} {d : Delivery}
    {msg : LogicalMessage} {c : Consumer} (inv : SessionInv types exotic s n q)
    (sent : q.message s.txns d = some (msg, q'))
    (handled : q'.consumer.handle types msg = .next c) :
    SessionInv types exotic s n { q' with consumer := c } := by
  cases d with
  | begin =>
      simp only [Session.message] at sent
      split at sent
      · next t _ here =>
          cases sent
          cases handled
          exact {
            cursor := inv.cursor
            durable := inv.durable
            announced := inv.announced
            placed := .inr ⟨t, here, rfl, [], rfl, .nil⟩ }
      · cases sent
  | relation m =>
      simp only [Session.message] at sent
      split at sent
      · next rest position =>
          cases sent
          simp only [Consumer.handle] at handled
          split at handled
          · next c' accepted =>
              cases handled
              exact inv.relation position accepted
          · cases handled
      · cases sent
  | row =>
      simp only [Session.message] at sent
      split at sent
      · next rel m rest position =>
          split at sent
          · next found =>
              cases sent
              simp only [Consumer.handle, Consumer.decode_of_announced
                (inv.announced _ _ found)] at handled
              split at handled
              · next ch decoded =>
                  cases handled
                  exact inv.row position decoded
              · cases handled
          · cases sent
      · cases sent
  | commit =>
      simp only [Session.message] at sent
      split at sent
      · cases sent
        cases handled
      · cases sent
  | other =>
      simp only [Session.message] at sent
      split at sent
      · cases sent
        cases handled
        exact inv
      · cases sent
        cases handled
        exact inv
      · cases sent

/-- The commit message: what goes into the durable transaction. -/
theorem SessionInv.commit {s : State} {n : Nat} {q q' : Session} {d : Delivery}
    {msg : LogicalMessage} {c : Consumer} {lsn : LSN} {changes : List StoredChange}
    (inv : SessionInv types exotic s n q) (positive : ∀ t ∈ s.txns, 0 < t.endLSN)
    (sent : q.message s.txns d = some (msg, q'))
    (handled : q'.consumer.handle types msg = .persist c lsn)
    (stored : c.stored exotic = some changes) :
    ∃ t, s.txns[q'.cursor]? = some t ∧ Persist.For types exotic ⟨lsn, c.curXid, changes⟩ t ∧
      q'.position = .persisting ∧ q'.cursor = q.cursor ∧ c.durable = q.consumer.durable ∧
      c.rels = q.consumer.rels ∧ q'.sent = q.sent := by
  cases d with
  | begin =>
      simp only [Session.message] at sent
      split at sent <;> cases sent
      cases handled
  | relation m =>
      simp only [Session.message] at sent
      split at sent <;> cases sent
      simp only [Consumer.handle] at handled
      split at handled <;> cases handled
  | row =>
      simp only [Session.message] at sent
      split at sent
      · split at sent <;> cases sent
        simp only [Consumer.handle] at handled
        split at handled <;> cases handled
      · cases sent
  | other =>
      simp only [Session.message] at sent
      split at sent <;> cases sent <;> cases handled
  | commit =>
      simp only [Session.message] at sent
      split at sent
      · next t position here =>
          cases sent
          have nonzero : t.endLSN ≠ 0 := (positive t (List.mem_of_getElem? here)).ne'
          simp only [Consumer.handle, if_neg nonzero] at handled
          cases handled
          obtain ⟨t', here', xid, read, body, pending⟩ := inv.reading position
          cases here.symm.trans here'
          rw [List.append_nil] at body
          subst body
          exact ⟨t, here, ⟨rfl, xid, stored_of_decoded pending stored⟩, rfl, rfl, rfl, rfl, rfl⟩
      · cases sent

theorem inv_deliver {s s' : State} {n : Nat} {q q' : Session} {d : Delivery}
    {msg : LogicalMessage} (inv : Inv types exotic s n) (running : s.session = some q)
    (sent : q.message s.txns d = some (msg, q'))
    (stepped : s.deliver types exotic q' msg = some s') : Inv types exotic s' n := by
  have session := inv.session q running
  unfold State.deliver at stepped
  split at stepped
  · next c handled =>
      cases stepped
      refine { inv with session := fun _ running' => ?_ }
      cases running'
      exact (session.next sent handled).grow (le_refl n) (fun _ _ here => here)
        (List.Subset.refl _) fun _ => rfl
  · cases stepped
    exact inv_stop inv
  · next c lsn handled =>
      split at stepped
      · cases stepped
        exact inv_stop inv
      · next changes stored idle =>
          cases stepped
          obtain ⟨t, here, ours, position, cursor, durable, rels, announced⟩ :=
            session.commit inv.positive sent handled stored
          refine { inv with
            inflight := fun _ flying => ?_
            session := fun _ running' => ?_ }
          · cases flying
            exact ⟨q'.cursor, t, cursor ▸ session.cursor, here, ours⟩
          · cases running'
            exact {
              cursor := cursor ▸ session.cursor
              durable := durable ▸ session.durable
              announced := by simpa only [rels, announced] using session.announced
              placed := .inr ⟨t, here, by
                rw [position]
                exact ⟨_, rfl, ours⟩⟩ }
      · cases stepped

theorem inv_step {s s' : State} {n : Nat} {e : Event} (inv : Inv types exotic s n)
    (stepped : step types exotic s e = some s') : ∃ n', Inv types exotic s' n' := by
  cases e with
  | source t =>
      simp only [step] at stepped
      split at stepped
      · next fits =>
          cases stepped
          exact ⟨n, inv_source inv fits.1 fits.2⟩
      · cases stepped
  | start cursor =>
      simp only [step] at stepped
      split at stepped
      · next able =>
          cases stepped
          exact ⟨n, inv_start inv able.2⟩
      · cases stepped
  | deliver d =>
      obtain ⟨q, running, rest⟩ := Option.bind_eq_some_iff.1 stepped
      obtain ⟨⟨msg, q'⟩, sent, delivered⟩ := Option.bind_eq_some_iff.1 rest
      exact ⟨n, inv_deliver inv running sent delivered⟩
  | settle committed =>
      obtain ⟨x, flying, rest⟩ := Option.bind_eq_some_iff.1 stepped
      cases rest
      cases committed with
      | false => exact ⟨n, inv_rollback inv⟩
      | true => exact inv_committed inv flying
  | ack =>
      obtain ⟨q, running, rest⟩ := Option.bind_eq_some_iff.1 stepped
      split at rest
      · next position =>
          cases rest
          exact ⟨n, inv_ack inv running position⟩
      · cases rest
  | status =>
      obtain ⟨q, running, rest⟩ := Option.bind_eq_some_iff.1 stepped
      split at rest
      · cases rest
        exact ⟨n, inv_status inv running⟩
      · cases rest
        exact ⟨n, inv_status inv running⟩
      · cases rest
  | stop =>
      obtain ⟨q, -, rest⟩ := Option.bind_eq_some_iff.1 stepped
      cases rest
      exact ⟨n, inv_stop inv⟩

theorem inv_initial : Inv types exotic initial 0 where
  increasing := List.Pairwise.nil
  positive := by simp [initial]
  logged := ⟨Nat.zero_le _, by simp [initial], rfl⟩
  acks := by simp [initial]
  checkpoint := .inl rfl
  inflight := fun _ flying => nomatch flying
  session := fun _ running => nomatch running

/-- **Persist before acknowledge.**  After any run of commits, deliveries, durable
transactions, acknowledgements, crashes and restarts, what was acknowledged is in
`change_log`, exactly once and in order. -/
theorem acknowledged_durable {s : State} (reached : (machine types exotic).Reachable s) :
    s.Durable types exotic := by
  have kept : ∃ n, Inv types exotic s n := by
    refine Machine.reachable_induction (P := fun s => ∃ n, Inv types exotic s n) ?_ ?_ reached
    · rintro _ rfl
      exact ⟨0, inv_initial⟩
    · rintro s e s' ⟨n, inv⟩ stepped
      exact inv_step inv stepped
  obtain ⟨n, inv⟩ := kept
  exact inv.durable

end Machine

/-! ## A crash between the commit and the acknowledgement -/

namespace Redelivery

def tasks : RelationMessage := ⟨16384, "public", "tasks", [⟨"id", 23, -1, 1⟩]⟩

def insertTask (id : String) : Item := (tasks, .insert 16384 (some [⟨'t', id⟩]))

def first : Txn := ⟨700, 9, 10, [insertTask "1", insertTask "2"]⟩

def second : Txn := ⟨701, 19, 20, [insertTask "3"]⟩

/-- The first process loses its transaction's reply; the second one reads both
transactions from the beginning. -/
def schedule : List Event :=
  [.source first, .start 0, .status, .deliver .begin, .deliver (.relation tasks), .deliver .row,
    .deliver .row, .deliver .commit, .stop, .settle true, .source second,
    .start 0, .deliver .begin, .deliver (.relation tasks), .deliver .row, .deliver .row,
    .deliver .commit, .settle true, .ack, .deliver .begin, .deliver .row, .deliver .commit,
    .settle true, .ack]

def noTypes : Types := fun _ => none

def noExotic : Value → Option Json := fun _ => none

theorem acknowledged_durable_redelivered :
    ∃ s, (machine noTypes noExotic).Reachable s ∧ s.acks = [0, 10, 20] ∧
      s.db.rows.map LogRow.id = [1, 2, 5] ∧ s.Durable noTypes noExotic := by
  have replay : ((machine noTypes noExotic).run initial schedule).map (fun s =>
      (s.acks, s.db.rows.map LogRow.id)) = some ([0, 10, 20], [1, 2, 5]) := by
    decide +kernel
  obtain ⟨s, ran, ends⟩ := Option.map_eq_some_iff.1 replay
  obtain ⟨acks, ids⟩ := Prod.mk.inj ends
  have reached : (machine noTypes noExotic).Reachable s := (Machine.Reachable.init rfl).run ran
  exact ⟨s, reached, acks, ids, acknowledged_durable reached⟩

end Redelivery

end Tether.Durability
