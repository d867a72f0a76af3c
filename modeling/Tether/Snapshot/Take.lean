/-
# Tether.Snapshot.Take — a WAL position against a visible set

`internal/snapshot/take.go` opens a REPEATABLE READ transaction whose first
statement is `SELECT pg_current_wal_lsn()`.  Postgres fixes the transaction's
visible set when that statement starts and reads the WAL position while it runs,
so the rows belong to the first instant and the position to the second.

A committing transaction, in turn, writes its commit record first and becomes
visible later.  The machine interleaves both.  A transaction that is written but
not visible at the first instant, or written between the two, is below the
position and not in the rows: the LSN gate of `Instance.apply` then drops it.
`take_exact_iff` says that nothing else can go wrong.
-/
import Tether.Lib.Machine
import Tether.Shape.Instance

namespace Tether.Snapshot

open Lib Wal Shape

set_option autoImplicit false

/-- The steps of `Take`: `visible` is the set its row query reads. -/
inductive Phase where
  | idle
  | fixed (visible : Finset LSN)
  | positioned (visible : Finset LSN) (lsn : LSN)
  | finished (visible : Finset LSN) (lsn : LSN)

/-- What `Take` has sampled, once it has read the position. -/
def Phase.result : Phase → Option (Finset LSN × LSN)
  | .positioned visible lsn | .finished visible lsn => some (visible, lsn)
  | .idle | .fixed _ => none

/-- Transactions are named by their commit LSN. -/
structure State where
  wal : LSN := 0
  /-- Commit record written. -/
  written : Finset LSN := ∅
  /-- Visible to new snapshots. -/
  visible : Finset LSN := ∅
  phase : Phase := .idle

inductive Event where
  | writeCommit (lsn : LSN)
  | becomeVisible (lsn : LSN)
  /-- Other WAL activity. -/
  | advance (lsn : LSN)
  /-- The first statement starts. -/
  | fix
  | readLSN
  | readRows

def step (s : State) : Event → Option State
  | .writeCommit lsn =>
      if s.wal < lsn then some { s with wal := lsn, written := insert lsn s.written } else none
  | .becomeVisible lsn =>
      if lsn ∈ s.written then some { s with visible := insert lsn s.visible } else none
  | .advance lsn => if s.wal < lsn then some { s with wal := lsn } else none
  | .fix =>
      match s.phase with
      | .idle => some { s with phase := .fixed s.visible }
      | _ => none
  | .readLSN =>
      match s.phase with
      | .fixed visible => some { s with phase := .positioned visible s.wal }
      | _ => none
  | .readRows =>
      match s.phase with
      | .positioned visible lsn => some { s with phase := .finished visible lsn }
      | _ => none

def machine : Machine State Event where
  init s := s = {}
  step := step

/-- **The snapshot LSN is exact**: a transaction is in the rows exactly when its
commit LSN is at most the position, and so exactly when the LSN gate of an instance
loaded at that position skips its changes. -/
structure Exact (s : State) : Prop where
  position : ∀ visible lsn, s.phase.result = some (visible, lsn) →
    ∀ txn ∈ s.written, txn ≤ lsn ↔ txn ∈ visible
  gate : ∀ visible lsn, s.phase.result = some (visible, lsn) →
    ∀ (C : Type) (inst : Instance C) (ch : Change), inst.hasSnapshot = true →
      inst.snapshotLSN = lsn → ch.commitLSN ∈ s.written →
      (inst.skips ch = true ↔ ch.commitLSN ∈ visible)

/-- Every written transaction is visible when `Take` fixes its visible set, and no
commit record is written before it has read the position. -/
def Undisturbed (s : State) : Event → Prop
  | .fix => s.written ⊆ s.visible
  | .writeCommit _ => ∀ visible, s.phase ≠ .fixed visible
  | _ => True

/-- What a step does. -/
inductive Stepped (s : State) : Event → State → Prop where
  | writeCommit {lsn : LSN} (later : s.wal < lsn) :
      Stepped s (.writeCommit lsn) { s with wal := lsn, written := insert lsn s.written }
  | becomeVisible {lsn : LSN} (written : lsn ∈ s.written) :
      Stepped s (.becomeVisible lsn) { s with visible := insert lsn s.visible }
  | advance {lsn : LSN} (later : s.wal < lsn) : Stepped s (.advance lsn) { s with wal := lsn }
  | fix (phase : s.phase = .idle) : Stepped s .fix { s with phase := .fixed s.visible }
  | readLSN {visible : Finset LSN} (phase : s.phase = .fixed visible) :
      Stepped s .readLSN { s with phase := .positioned visible s.wal }
  | readRows {visible : Finset LSN} {lsn : LSN} (phase : s.phase = .positioned visible lsn) :
      Stepped s .readRows { s with phase := .finished visible lsn }

theorem step_cases {s t : State} {ev : Event} (stepped : step s ev = some t) : Stepped s ev t := by
  cases ev with
  | writeCommit lsn | becomeVisible lsn | advance lsn =>
      simp only [step, Option.ite_none_right_eq_some, Option.some.injEq] at stepped
      obtain ⟨allowed, rfl⟩ := stepped
      constructor
      exact allowed
  | fix | readLSN | readRows =>
      simp only [step] at stepped
      split at stepped
      · next phase =>
          cases stepped
          constructor
          exact phase
      · cases stepped

/-! ## Undisturbed runs -/

structure Inv (s : State) : Prop where
  bounded : ∀ txn ∈ s.written, txn ≤ s.wal
  nonzero : ∀ txn ∈ s.written, txn ≠ 0
  seen : s.visible ⊆ s.written
  fixed : ∀ visible, s.phase = .fixed visible → visible = s.written
  result : ∀ visible lsn, s.phase.result = some (visible, lsn) →
    lsn ≤ s.wal ∧ visible ⊆ s.written ∧ ∀ txn ∈ s.written, txn ≤ lsn ↔ txn ∈ visible

theorem inv_start : Inv {} where
  bounded := by simp
  nonzero := by simp
  seen := by simp
  fixed := by simp
  result := by simp [Phase.result]

theorem Inv.exact {s : State} (inv : Inv s) : Exact s where
  position visible lsn taken := (inv.result visible lsn taken).2.2
  gate := by
    intro visible lsn taken C inst ch loaded position written
    rw [← (inv.result visible lsn taken).2.2 ch.commitLSN written]
    simp [Instance.skips, loaded, position, inv.nonzero ch.commitLSN written]

/-- A new commit record lies past every position read so far. -/
theorem inv_writeCommit {s : State} {lsn : LSN} (inv : Inv s)
    (calm : ∀ visible, s.phase ≠ .fixed visible) (later : s.wal < lsn) :
    Inv { s with wal := lsn, written := insert lsn s.written } where
  bounded txn member := by
    rcases Finset.mem_insert.1 member with rfl | old
    · exact le_rfl
    · exact (inv.bounded txn old).trans later.le
  nonzero txn member := by
    rcases Finset.mem_insert.1 member with rfl | old
    · exact Nat.ne_of_gt (Nat.zero_lt_of_lt later)
    · exact inv.nonzero txn old
  seen := inv.seen.trans (Finset.subset_insert _ _)
  fixed visible phase := absurd phase (calm visible)
  result visible n taken := by
    obtain ⟨bound, sampled, precise⟩ := inv.result visible n taken
    refine ⟨bound.trans later.le, sampled.trans (Finset.subset_insert _ _), ?_⟩
    intro txn member
    rcases Finset.mem_insert.1 member with rfl | old
    · refine iff_of_false (Nat.not_le.2 (lt_of_le_of_lt bound later)) fun early => ?_
      exact absurd (inv.bounded txn (sampled early)) (Nat.not_le.2 later)
    · exact precise txn old

theorem inv_step {s t : State} {ev : Event} (inv : Inv s) (calm : Undisturbed s ev)
    (stepped : step s ev = some t) : Inv t := by
  cases step_cases stepped with
  | writeCommit later => exact inv_writeCommit inv calm later
  | becomeVisible written => exact { inv with seen := Finset.insert_subset written inv.seen }
  | advance later =>
      exact { inv with
        bounded := fun txn member => (inv.bounded txn member).trans later.le
        result := fun visible n taken =>
          ⟨(inv.result visible n taken).1.trans later.le, (inv.result visible n taken).2⟩ }
  | fix phase =>
      refine { inv with fixed := ?_, result := by simp [Phase.result] }
      intro visible same
      cases same
      exact Finset.Subset.antisymm inv.seen calm
  | @readLSN visible phase =>
      refine { inv with fixed := by simp, result := ?_ }
      intro visible' n same
      cases same
      have all := inv.fixed visible phase
      refine ⟨le_rfl, all.le, fun txn member => ?_⟩
      exact iff_of_true (inv.bounded txn member) (all ▸ member)
  | @readRows visible lsn phase =>
      refine { inv with fixed := by simp, result := ?_ }
      intro visible' n same
      cases same
      exact inv.result visible lsn (by simp [phase, Phase.result])

/-! ## Disturbed runs -/

/-- A written transaction that the fixed set misses, at or below the position. -/
def Missed (s : State) : Prop :=
  match s.phase with
  | .idle => False
  | .fixed visible => ∃ txn ∈ s.written, txn ≤ s.wal ∧ txn ∉ visible
  | .positioned visible lsn | .finished visible lsn => ∃ txn ∈ s.written, txn ≤ lsn ∧ txn ∉ visible

theorem missed_of_disturbed {s t : State} {ev : Event} (inv : Inv s)
    (disturbed : ¬ Undisturbed s ev) (stepped : step s ev = some t) : Missed t := by
  cases step_cases stepped with
  | fix phase =>
      obtain ⟨txn, written, hidden⟩ := Finset.not_subset.1 disturbed
      exact ⟨txn, written, inv.bounded txn written, hidden⟩
  | @writeCommit lsn later =>
      simp only [Undisturbed, ne_eq, not_forall, not_not] at disturbed
      obtain ⟨visible, phase⟩ := disturbed
      simp only [Missed, phase]
      refine ⟨lsn, Finset.mem_insert_self _ _, le_rfl, fun early => ?_⟩
      rw [inv.fixed visible phase] at early
      exact absurd (inv.bounded lsn early) (Nat.not_le.2 later)
  | _ => exact absurd trivial disturbed

theorem missed_step {s t : State} {ev : Event} (missed : Missed s)
    (stepped : step s ev = some t) : Missed t := by
  cases step_cases stepped with
  | writeCommit later =>
      unfold Missed at missed ⊢
      cases phase : s.phase <;> simp only [phase] at missed ⊢
      all_goals obtain ⟨txn, written, bound, hidden⟩ := missed
      · exact ⟨txn, Finset.mem_insert_of_mem written, bound.trans later.le, hidden⟩
      · exact ⟨txn, Finset.mem_insert_of_mem written, bound, hidden⟩
      · exact ⟨txn, Finset.mem_insert_of_mem written, bound, hidden⟩
  | becomeVisible _ => exact missed
  | advance later =>
      unfold Missed at missed ⊢
      cases phase : s.phase <;> simp only [phase] at missed ⊢
      · obtain ⟨txn, written, bound, hidden⟩ := missed
        exact ⟨txn, written, bound.trans later.le, hidden⟩
      · exact missed
      · exact missed
  | fix phase => simp [Missed, phase] at missed
  | readLSN phase | readRows phase => simpa [Missed, phase] using missed

theorem not_missed_of_exact {s : State} (taken : s.phase.result ≠ none) (precise : Exact s) :
    ¬ Missed s := by
  cases phase : s.phase with
  | idle => simp [Phase.result, phase] at taken
  | fixed visible => simp [Phase.result, phase] at taken
  | positioned visible lsn | finished visible lsn =>
      simp only [Missed, phase]
      rintro ⟨txn, written, bound, hidden⟩
      have result : s.phase.result = some (visible, lsn) := by simp [phase, Phase.result]
      exact hidden ((precise.position visible lsn result txn written).1 bound)

/-- **Exact snapshot LSN.**  In an undisturbed run the snapshot LSN is exact in every
state, and a run that has read the position ends in an exact state only if it was
undisturbed. -/
theorem take_exact_iff (events : List Event) :
    (machine.Meets Undisturbed {} events → machine.Along Exact {} events) ∧
      ∀ t, machine.run {} events = some t → t.phase.result ≠ none →
        (Exact t ↔ machine.Meets Undisturbed {} events) := by
  have keeps : ∀ s e t, Inv s → Undisturbed s e → machine.step s e = some t → Inv t :=
    fun _ _ _ inv calm stepped => inv_step inv calm stepped
  have along : machine.Meets Undisturbed {} events → machine.Along Exact {} events :=
    Machine.along_of_meets (fun _ inv => inv.exact) keeps inv_start
  refine ⟨along, fun t ran taken => ⟨fun exact => ?_, fun calm => (along calm).last ran⟩⟩
  exact Machine.meets_of_run keeps
    (fun _ _ _ inv disturbed stepped => missed_of_disturbed inv disturbed stepped)
    (fun _ _ _ missed stepped => missed_step missed stepped) inv_start ran
    (not_missed_of_exact taken exact)

/-- Transaction 10 has written its commit record when `Take` starts and becomes
visible a moment later: it is at the position, not in the rows, and skipped. -/
theorem unseen_commit_skipped :
    ∃ t, machine.run {} [.writeCommit 10, .fix, .readLSN, .becomeVisible 10, .readRows] = some t ∧
      t.phase.result = some (∅, 10) ∧ 10 ∈ t.written ∧
      ({ defn := ⟨"tasks", "public", "tasks", ["id"], none⟩, filter := .notNull "id",
         snapshotLSN := 10, hasSnapshot := true } : Instance Unit).skips
        { schema := "public", table := "tasks", op := .insert, commitLSN := 10 } = true ∧
      ¬ Exact t := by
  refine ⟨_, rfl, rfl, by decide, by decide, fun precise => ?_⟩
  exact absurd ((precise.position ∅ 10 rfl 10 (by decide)).1 le_rfl) (by decide)

end Tether.Snapshot
