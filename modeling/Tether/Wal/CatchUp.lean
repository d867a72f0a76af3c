/-
# Tether.Wal.CatchUp — the consumer can always finish

`Durability` says that nothing wrong is ever stored; here is the other half.  From every
state the replication machine can be in (in the middle of a transaction, with a durable
transaction in flight, after a crash) there are steps of the consumer and the database
that put every committed transaction into `change_log` (`catches_up`).  Postgres starts
the session at the first transaction it has to send, and the consumer reads on from there
(`consumes`).

What it takes is that `persist` accepts the rows (`Txn.stored`), that tuples are well
formed (`Txn.Readable`) and that no relation changes its columns (`Agree`), since a
consumer stops on drift.
-/
import Tether.Wal.Progress

namespace Tether.Durability

open Tether.Lib Tether.Wal

set_option autoImplicit false

variable {types : Types} {exotic : Value → Option Json} {s s' : State}

/-! ## Relations -/

/-- No relation is announced with other columns than before. -/
def Agree (txns : List Txn) : Prop :=
  ∀ t ∈ txns, ∀ t' ∈ txns, ∀ item ∈ t.body, ∀ item' ∈ t'.body,
    item.1.relationID = item'.1.relationID →
      fingerprintRelation item.1 = fingerprintRelation item'.1

/-- The relation belongs to a row of the transactions. -/
def Announced (txns : List Txn) (rel : RelationMessage) : Prop :=
  ∃ t ∈ txns, ∃ item ∈ t.body, item.1 = rel

/-- Everything the consumer knows was announced for a row of the transactions. -/
def Known (txns : List Txn) (rels : KeyMap Nat RelationMeta) : Prop :=
  ∀ id known, rels.lookup id = some known →
    ∃ rel, Announced txns rel ∧ rel.relationID = id ∧ known = rel.relationMeta

theorem Known.insert {txns : List Txn} {rels : KeyMap Nat RelationMeta} (known : Known txns rels)
    {rel : RelationMessage} (ours : Announced txns rel) :
    Known txns (rels.insert rel.relationID rel.relationMeta) := by
  intro id found here
  rw [KeyMap.lookup_insert_eq] at here
  split at here
  · next same =>
      cases here
      exact ⟨rel, ours, same.symm, rfl⟩
  · exact known id found here

theorem Known.matches {rels : KeyMap Nat RelationMeta} (known : Known s.txns rels)
    (agree : Agree s.txns) {t : Txn} (member : t ∈ s.txns) : Txn.Matches rels t.body where
  cached := by
    intro item inside found here
    obtain ⟨rel, ⟨t', member', item', inside', rfl⟩, same, rfl⟩ := known _ found here
    exact agree t' member' t member item' inside' item inside same
  agree item inside item' inside' same := agree t member t member item inside item' inside' same

/-- The consumer of the running session, if there is one, knows nothing else. -/
def State.Knows (s : State) : Prop := ∀ q, s.session = some q → Known s.txns q.consumer.rels

/-- Relation messages are about rows of the transactions. -/
def Ours (txns : List Txn) : Event → Prop
  | .deliver (.relation rel) => Announced txns rel
  | .source _ => False
  | _ => True

theorem message_consumer {txns : List Txn} {q q' : Session} {d : Delivery} {msg : LogicalMessage}
    (sent : q.message txns d = some (msg, q')) :
    q'.consumer = q.consumer ∧ ∀ rel, msg = .relation rel → d = .relation rel := by
  cases d <;> simp only [Session.message] at sent <;> repeat' split at sent
  all_goals first
    | cases sent
      exact ⟨rfl, fun rel same => by cases same; rfl⟩
    | cases sent
      exact ⟨rfl, fun rel same => by cases same⟩
    | cases sent

variable (types) in
/-- What a message leaves of the known relations, unless the session ends. -/
theorem handle_known {txns : List Txn} {c : Consumer} {msg : LogicalMessage}
    (known : Known txns c.rels) (ours : ∀ rel, msg = .relation rel → Announced txns rel) :
    ∀ c', (c.handle types msg = .next c' ∨ ∃ lsn, c.handle types msg = .persist c' lsn) →
      Known txns c'.rels := by
  intro c' result
  cases msg with
  | relation rel =>
      simp only [Consumer.handle] at result
      split at result
      · next accepted =>
          rw [Consumer.handleRelation_ok accepted] at result
          rcases result with next | ⟨lsn, wrong⟩
          · cases next
            exact known.insert (ours rel rfl)
          · cases wrong
      · rcases result with wrong | ⟨lsn, wrong⟩ <;> cases wrong
  | row m =>
      simp only [Consumer.handle] at result
      split at result <;> rcases result with next | ⟨lsn, next⟩ <;> cases next
      exact known
  | begin | commit | other =>
      rcases result with next | ⟨lsn, next⟩ <;> cases next
      exact known

theorem knows_step {e : Event} (knows : s.Knows) (ours : Ours s.txns e)
    (stepped : step types exotic s e = some s') : s'.txns = s.txns ∧ s'.Knows := by
  cases e with
  | source t => exact ours.elim
  | start cursor =>
      simp only [step, Option.ite_none_right_eq_some, Option.some.injEq] at stepped
      obtain ⟨-, rfl⟩ := stepped
      refine ⟨rfl, fun q running => ?_⟩
      cases running
      exact fun id known found => by simp [Consumer.run] at found
  | deliver d =>
      obtain ⟨q, running, rest⟩ := Option.bind_eq_some_iff.1 stepped
      obtain ⟨⟨msg, q'⟩, sent, rest⟩ := Option.bind_eq_some_iff.1 rest
      obtain ⟨consumer, relation⟩ := message_consumer sent
      have known : Known s.txns q'.consumer.rels := consumer ▸ knows q running
      have after := handle_known types known fun rel (same : msg = .relation rel) => by
        rw [relation rel same] at ours
        exact ours
      simp only [State.deliver] at rest
      split at rest
      · next c next =>
          cases rest
          refine ⟨rfl, fun q'' running => ?_⟩
          cases running
          exact after c (.inl next)
      · cases rest
        exact ⟨rfl, fun q'' running => by cases running⟩
      · next c lsn persists =>
          split at rest
          · cases rest
            exact ⟨rfl, fun q'' running => by cases running⟩
          · cases rest
            refine ⟨rfl, fun q'' running => ?_⟩
            cases running
            exact after c (.inr ⟨lsn, persists⟩)
          · cases rest
  | settle committed =>
      obtain ⟨x, -, rest⟩ := Option.bind_eq_some_iff.1 stepped
      cases rest
      refine ⟨rfl, fun q' running => ?_⟩
      obtain ⟨q, before, kept⟩ := Option.bind_eq_some_iff.1 running
      split at kept
      · split at kept
        · cases kept
          exact knows q before
        · cases kept
      · cases kept
        exact knows _ before
  | ack =>
      obtain ⟨q, before, rest⟩ := Option.bind_eq_some_iff.1 stepped
      split at rest
      · cases rest
        refine ⟨rfl, fun q' running => ?_⟩
        cases running
        exact knows q before
      · cases rest
  | status =>
      obtain ⟨q, before, rest⟩ := Option.bind_eq_some_iff.1 stepped
      split at rest
      · cases rest
        exact ⟨rfl, knows⟩
      · cases rest
        exact ⟨rfl, knows⟩
      · cases rest
  | stop =>
      obtain ⟨q, -, rest⟩ := Option.bind_eq_some_iff.1 stepped
      cases rest
      exact ⟨rfl, fun q' running => by cases running⟩

theorem knows_run {events : List Event} (knows : s.Knows) (ours : ∀ e ∈ events, Ours s.txns e)
    (ran : (machine types exotic).run s events = some s') : s'.txns = s.txns ∧ s'.Knows := by
  induction events generalizing s with
  | nil =>
      cases ran
      exact ⟨rfl, knows⟩
  | cons e events ih =>
      obtain ⟨s₁, stepped, rest⟩ := Machine.run_cons.1 ran
      obtain ⟨txns, later⟩ := knows_step knows (ours e List.mem_cons_self) stepped
      obtain ⟨txns', known⟩ := ih later
        (fun e' member => txns ▸ ours e' (List.mem_cons_of_mem _ member)) rest
      exact ⟨txns'.trans txns, known⟩

/-! ## One transaction after the other -/

/-- `persist` accepts the transaction, and the decoder does. -/
structure Txn.Fits (types : Types) (exotic : Value → Option Json) (t : Txn) : Prop where
  readable : t.Readable
  storable : (t.stored types exotic).isSome

theorem ours_deliveries {t : Txn} (member : t ∈ s.txns) : ∀ e ∈ t.deliveries, Ours s.txns e := by
  intro e inside
  simp only [Txn.deliveries, Txn.messages, List.cons_append, List.mem_cons, List.mem_append,
    List.mem_flatMap, List.not_mem_nil, or_false] at inside
  rcases inside with rfl | (⟨item, here, rfl | rfl⟩ | rfl) | rfl | rfl
  · trivial
  · exact ⟨t, member, item, here, rfl⟩
  all_goals trivial

/-- The session reads one transaction and comes out behind it. -/
theorem consumes_one {q : Session} {t : Txn} (running : s.session = some q)
    (between : q.position = .between) (here : s.txns[q.cursor]? = some t)
    (idle : s.inflight = none) (knows : s.Knows) (agree : Agree s.txns)
    (fits : t.Fits types exotic) :
    ∃ s' q', (machine types exotic).run s t.deliveries = some s' ∧ s'.session = some q' ∧
      q'.cursor = q.cursor + 1 ∧ q'.position = .between ∧ s'.inflight = none := by
  have member : t ∈ s.txns := List.mem_of_getElem? here
  obtain ⟨c, sent, ran⟩ := run_messages types exotic running between here idle fits.readable
    ((knows q running).matches agree member)
  obtain ⟨stored, accepted⟩ := Option.isSome_iff_exists.1 fits.storable
  rw [accepted] at ran
  have settles : ∃ s' q', (machine types exotic).run { s with
        inflight := some ⟨t.position, c.curXid, stored⟩
        session := some ⟨c, sent, q.cursor, .persisting⟩ } [.settle true, .ack] = some s' ∧
      s'.session = some q' ∧ q'.cursor = q.cursor + 1 ∧ q'.position = .between ∧
      s'.inflight = none :=
    ⟨_, _, rfl, rfl, rfl, rfl, rfl⟩
  obtain ⟨s', q', rest, after⟩ := settles
  exact ⟨s', q', Machine.run_trans ran rest, after⟩

variable (types exotic) in
/-- Then all that are left. -/
theorem consumes {q : Session} (running : s.session = some q) (between : q.position = .between)
    (within : q.cursor ≤ s.txns.length) (idle : s.inflight = none) (knows : s.Knows)
    (agree : Agree s.txns) (fits : ∀ t ∈ s.txns, t.Fits types exotic) :
    ∃ events s' q', (machine types exotic).run s events = some s' ∧
      (∀ e ∈ events, Ours s.txns e) ∧ s'.session = some q' ∧ q'.cursor = s.txns.length := by
  induction left : s.txns.length - q.cursor generalizing s q with
  | zero =>
      refine ⟨[], s, q, rfl, fun e member => absurd member List.not_mem_nil, running, ?_⟩
      exact Nat.le_antisymm within (Nat.sub_eq_zero_iff_le.1 left)
  | succ k ih =>
      have inside : q.cursor < s.txns.length := by omega
      have here := List.getElem?_eq_getElem inside
      have member := List.mem_of_getElem? here
      obtain ⟨s₁, q₁, ran, running₁, cursor, between₁, idle₁⟩ :=
        consumes_one running between here idle knows agree (fits _ member)
      have ours := ours_deliveries member
      obtain ⟨txns, knows₁⟩ := knows_run knows ours ran
      obtain ⟨events, s', q', rest, later, running', done⟩ :=
        ih running₁ between₁ (by rw [txns, cursor]; exact inside) idle₁ knows₁ (txns ▸ agree)
          (txns ▸ fits) (by rw [txns, cursor]; omega)
      refine ⟨_ ++ events, s', q', Machine.run_trans ran rest, fun e member => ?_, running',
        txns ▸ done⟩
      rcases List.mem_append.1 member with first | second
      · exact ours e first
      · exact txns ▸ later e second

/-! ## From any state -/

/-- Postgres need not send the transaction to a consumer that starts now. -/
def State.Settled (s : State) (t : Txn) : Prop :=
  t.endLSN ≤ Consumer.resolveStartLSN s.db ∨ ∃ a ∈ s.acks, t.endLSN ≤ a

instance (s : State) (t : Txn) : Decidable (s.Settled t) := inferInstanceAs (Decidable (_ ∨ _))

/-- The first transaction that Postgres has to send. -/
def State.resumePoint (s : State) : Nat := (s.txns.takeWhile fun t => s.Settled t).length

theorem skippable_resumePoint (s : State) : s.skippable s.resumePoint := by
  have first : s.txns.takeWhile (fun t => decide (s.Settled t)) <+: s.txns :=
    List.takeWhile_prefix _
  refine ⟨first.length_le, fun t member => ?_⟩
  rw [State.resumePoint, ← List.prefix_iff_eq_take.1 first] at member
  have settled : s.Settled t := by simpa using List.mem_takeWhile_imp member
  exact settled

variable (types exotic) in
/-- The process stops, and what it had in flight is settled. -/
theorem comes_to_rest (s : State) :
    ∃ events s', (machine types exotic).run s events = some s' ∧ (∀ e ∈ events, Ours s.txns e) ∧
      s'.txns = s.txns ∧ s'.session = none ∧ s'.inflight = none := by
  obtain ⟨txns, acks, db, inflight, session⟩ := s
  cases session with
  | none =>
      cases inflight with
      | none => exact ⟨[], _, rfl, by simp, rfl, rfl, rfl⟩
      | some x => exact ⟨[.settle true], _, rfl, by simp [Ours], rfl, rfl, rfl⟩
  | some q =>
      cases inflight with
      | none => exact ⟨[.stop], _, rfl, by simp [Ours], rfl, rfl, rfl⟩
      | some x => exact ⟨[.stop, .settle true], _, rfl, by simp [Ours], rfl, rfl, rfl⟩

theorem exists_inv_run {n : Nat} {events : List Event} (inv : Inv types exotic s n)
    (ran : (machine types exotic).run s events = some s') : ∃ n', Inv types exotic s' n' := by
  induction events generalizing s n with
  | nil =>
      cases ran
      exact ⟨n, inv⟩
  | cons e events ih =>
      obtain ⟨s₁, stepped, rest⟩ := Machine.run_cons.1 ran
      obtain ⟨n₁, inv₁⟩ := inv_step inv stepped
      exact ih inv₁ rest

/-- **The consumer can always finish.**  Whatever has happened, steps of the consumer and
the database lead to a state in which `change_log` has every transaction. -/
theorem catches_up {n : Nat} (inv : Inv types exotic s n) (agree : Agree s.txns)
    (fits : ∀ t ∈ s.txns, t.Fits types exotic) :
    ∃ events s', (machine types exotic).run s events = some s' ∧ (∀ t, .source t ∉ events) ∧
      s'.txns = s.txns ∧ ∀ t ∈ s'.txns, s'.Holds types exotic t := by
  obtain ⟨stops, s₁, ran₁, ours₁, txns₁, free, idle⟩ := comes_to_rest types exotic s
  -- the session from the first transaction that is not settled
  have started : step types exotic s₁ (.start s₁.resumePoint) =
      some { s₁ with session := some ⟨Consumer.run s₁.db, ∅, s₁.resumePoint, .between⟩ } := by
    simp [step, free, skippable_resumePoint]
  have fresh : State.Knows { s₁ with
      session := some ⟨Consumer.run s₁.db, ∅, s₁.resumePoint, .between⟩ } := by
    intro q running
    cases running
    exact fun id known found => by simp [Consumer.run] at found
  obtain ⟨events, s', q, ran, ours, running, done⟩ := consumes types exotic (s := { s₁ with
      session := some ⟨Consumer.run s₁.db, ∅, s₁.resumePoint, .between⟩ }) rfl rfl
    (skippable_resumePoint s₁).1 idle fresh (txns₁ ▸ agree) (txns₁ ▸ fits)
  obtain ⟨txns, -⟩ := knows_run fresh ours ran
  have whole : (machine types exotic).run s (stops ++ .start s₁.resumePoint :: events) =
      some s' :=
    Machine.run_trans ran₁ (Machine.run_cons.2 ⟨_, started, ran⟩)
  obtain ⟨n', inv'⟩ := exists_inv_run inv whole
  refine ⟨_, s', whole, fun t member => ?_, txns.trans txns₁, fun t member => ?_⟩
  · rcases List.mem_append.1 member with first | second
    · exact ours₁ _ first
    · rcases List.mem_cons.1 second with wrong | later
      · cases wrong
      · exact ours _ later
  · have all : s'.txns.length ≤ n' := by
      rw [txns, ← done]
      exact (inv'.session q running).cursor
    exact inv'.holds (by rw [List.take_of_length_le all]; exact member)

end Tether.Durability
