/-
# Tether.Engine.Handoff — from the snapshot to the live feed

A first subscription takes a snapshot at a WAL position, loads it into a new
instance and only then registers the instance in `Engine.streams`.  Fan-out runs
beside it: its cursor `lastID` is global, and what it dispatches goes to the
streams registered at that moment.

The machine interleaves source commits, the consumer, fan-out ticks and the steps
of one first subscription.  `handoff_gapless_iff` is the exact condition for the
handoff to be gapless: no change of the shape's table past the snapshot position is
dispatched between `Take` and the registration.
-/
import Tether.Engine.Dispatch
import Tether.Lib.Cursor
import Tether.Lib.Machine

namespace Tether.Handoff

open Lib Wal Shape

set_option autoImplicit false

variable {C : Type}

/-- A shape, a client's claims, and an engine that has no stream for them yet. -/
structure Setup (C : Type) where
  defn : Definition C
  claims : C
  engine : Engine C
  first : streamKey defn.name (engine.claimsKey claims) ∉ engine.streams

def Setup.key (u : Setup C) : String := streamKey u.defn.name (u.engine.claimsKey u.claims)

/-- The steps of `subscribeShape` for a key that is not registered. -/
inductive Phase (C : Type) where
  | idle
  | taken (inst : Instance C) (lsn : LSN) (rows : List (Option Row))
  | loaded (inst : Instance C) (lsn : LSN)
  | registered (inst : Instance C) (lsn : LSN)
  | failed

/-- The snapshot's position, from `Take` on. -/
def Phase.position : Phase C → Option LSN
  | .taken _ lsn _ | .loaded _ lsn | .registered _ lsn => some lsn
  | .idle | .failed => none

/-- The position, while the instance is not yet registered. -/
def Phase.window : Phase C → Option LSN
  | .taken _ lsn _ | .loaded _ lsn => some lsn
  | .idle | .registered _ _ | .failed => none

/-- `committed` and `passed` are ghosts: every change in commit order, and the
changes passed to the new instance's `Apply`. -/
structure State (C : Type) where
  wal : LSN := 0
  committed : List Change := []
  /-- Transactions the consumer has not persisted yet. -/
  backlog : List (List Change) := []
  feed : Cursor Change := .empty
  engine : Engine C
  phase : Phase C := .idle
  passed : List Change := []

inductive Event where
  /-- A source transaction commits at `lsn`. -/
  | commit (lsn : LSN) (changes : List Change)
  /-- Other WAL activity. -/
  | advance (lsn : LSN)
  /-- The consumer persists the next transaction; the ids may skip some numbers. -/
  | consume (gap : Nat)
  | tickRead
  | dispatch
  | tickAbort
  | take (rows : List (Option Row))
  | load
  | register

def step (u : Setup C) (s : State C) : Event → Option (State C)
  | .commit lsn changes =>
      if s.wal < lsn then
        let stamped := changes.map fun ch => { ch with commitLSN := lsn }
        some { s with
          wal := lsn, committed := s.committed ++ stamped, backlog := s.backlog ++ [stamped] }
      else none
  | .advance lsn => if s.wal < lsn then some { s with wal := lsn } else none
  | .consume gap =>
      match s.backlog with
      | [] => none
      | changes :: later => some { s with backlog := later, feed := s.feed.append gap changes }
  | .tickRead => if s.feed.batch = [] then some { s with feed := s.feed.read } else none
  | .dispatch =>
      match s.feed.next with
      | none => none
      | some (ch, feed) =>
          some { s with
            feed := feed
            engine := s.engine.dispatchChange ch
            passed := if u.key ∈ s.engine.streams then s.passed ++ [ch] else s.passed }
  | .tickAbort => some { s with feed := s.feed.abort }
  | .take rows =>
      match s.phase, Instance.new u.defn u.claims with
      | .idle, .ok inst => some { s with phase := .taken inst s.wal rows }
      | .idle, .error _ => some { s with phase := .failed }
      | _, _ => none
  | .load =>
      match s.phase with
      | .taken inst lsn rows =>
          match inst.loadSnapshot lsn rows with
          | (inst, .ok _) => some { s with phase := .loaded inst lsn }
          | (_, .error _) => some { s with phase := .failed }
      | _ => none
  | .register =>
      match s.phase with
      | .loaded inst lsn =>
          some { s with
            engine := { s.engine with streams := s.engine.streams.insert u.key inst }
            phase := .registered inst lsn }
      | _ => none

def Setup.start (u : Setup C) : State C := { engine := u.engine }

def machine (u : Setup C) : Machine (State C) Event where
  init s := s = u.start
  step := step u

/-- A change of the shape's table past `lsn`. -/
def Setup.past (u : Setup C) (lsn : LSN) (ch : Change) : Bool :=
  tableMatch u.defn.withDefaults ch && lsn < ch.commitLSN

/-- **The handoff is gapless**: what fan-out dispatches is in commit order and each
once; of it, the changes of the shape's table past the snapshot are passed to the
instance, and the registered stream is the loaded instance after those calls. -/
structure Gapless (u : Setup C) (s : State C) : Prop where
  ordered : s.feed.handled <+: s.committed
  passed : ∀ lsn, s.phase.position = some lsn →
    s.passed.filter (u.past lsn) = s.feed.handled.filter (u.past lsn)
  stream : ∀ inst lsn, s.phase = .registered inst lsn →
    s.engine.streams.lookup u.key =
      some (s.passed.foldl (fun inst ch => (inst.apply ch).1) inst)

/-- The step does not dispatch a change of the shape's table past the snapshot
while the instance is not registered. -/
def Clear (u : Setup C) (s : State C) : Event → Prop
  | .dispatch => ∀ lsn ch, s.phase.window = some lsn →
      s.feed.batch.head?.map Prod.snd = some ch → u.past lsn ch = false
  | _ => True

/-! ## The invariant -/

structure Inv (u : Setup C) (s : State C) : Prop where
  /-- The log and the backlog are the commit history. -/
  history : s.committed = s.feed.items ++ s.backlog.flatten
  positions : ∀ ch ∈ s.committed, ch.commitLSN ≤ s.wal
  position : ∀ lsn, s.phase.position = some lsn → lsn ≤ s.wal
  unregistered : (∀ inst lsn, s.phase ≠ .registered inst lsn) →
    u.key ∉ s.engine.streams ∧ s.passed = []
  passed : ∀ lsn, s.phase.position = some lsn →
    s.passed.filter (u.past lsn) = s.feed.handled.filter (u.past lsn)
  stream : ∀ inst lsn, s.phase = .registered inst lsn →
    s.engine.streams.lookup u.key =
      some (s.passed.foldl (fun inst ch => (inst.apply ch).1) inst)

variable {u : Setup C} {s t : State C}

theorem inv_start (u : Setup C) : Inv u u.start where
  history := rfl
  positions := by simp [Setup.start]
  position := by simp [Setup.start, Phase.position]
  unregistered _ := ⟨u.first, rfl⟩
  passed := by simp [Setup.start, Phase.position]
  stream := by simp [Setup.start]

theorem Inv.gapless (inv : Inv u s) : Gapless u s where
  ordered := by
    rw [inv.history]
    exact s.feed.handled_isPrefix_items.trans (List.prefix_append _ _)
  passed := inv.passed
  stream := inv.stream

/-- Nothing dispatched before the snapshot is past it. -/
theorem Inv.handled_old (inv : Inv u s) {lsn : LSN} (now : s.wal ≤ lsn) :
    s.feed.handled.filter (u.past lsn) = [] := by
  refine List.filter_eq_nil_iff.2 fun ch member => ?_
  have old := inv.positions ch (inv.gapless.ordered.subset member)
  simp [Setup.past, Nat.not_lt.2 (old.trans now)]

theorem inv_commit {lsn : LSN} {changes : List Change} (inv : Inv u s)
    (stepped : step u s (.commit lsn changes) = some t) : Inv u t := by
  simp only [step, Option.ite_none_right_eq_some, Option.some.injEq] at stepped
  obtain ⟨later, rfl⟩ := stepped
  refine { inv with history := ?_, positions := ?_, position := ?_ }
  · simp [inv.history]
  · intro ch member
    rcases List.mem_append.1 member with old | new
    · exact (inv.positions ch old).trans later.le
    · obtain ⟨ch', -, rfl⟩ := List.mem_map.1 new
      exact le_rfl
  · exact fun n here => (inv.position n here).trans later.le

theorem inv_consume {gap : Nat} (inv : Inv u s)
    (stepped : step u s (.consume gap) = some t) : Inv u t := by
  simp only [step] at stepped
  split at stepped
  · cases stepped
  · rename_i changes later waiting
    cases stepped
    exact { inv with history := by simp [inv.history, waiting] }

theorem step_dispatch (stepped : step u s .dispatch = some t) :
    ∃ ch feed, s.feed.next = some (ch, feed) ∧
      t = { s with
        feed := feed
        engine := s.engine.dispatchChange ch
        passed := if u.key ∈ s.engine.streams then s.passed ++ [ch] else s.passed } := by
  simp only [step] at stepped
  split at stepped
  · cases stepped
  · next ch feed next => exact ⟨ch, feed, next, (Option.some.inj stepped).symm⟩

theorem inv_dispatch (inv : Inv u s) (clear : Clear u s .dispatch)
    (stepped : step u s .dispatch = some t) : Inv u t := by
  obtain ⟨ch, feed, next, rfl⟩ := step_dispatch stepped
  obtain ⟨head, handled, items⟩ := Cursor.next_spec next
  have absent : (∀ inst lsn, s.phase ≠ .registered inst lsn) →
      s.engine.streams.lookup u.key = none ∧ u.key ∉ s.engine.streams :=
    fun waiting => ⟨AList.lookup_eq_none.2 (inv.unregistered waiting).1,
      (inv.unregistered waiting).1⟩
  refine { inv with history := ?_, unregistered := ?_, passed := ?_, stream := ?_ }
  · rw [items, inv.history]
  · intro waiting
    obtain ⟨missing, notMem⟩ := absent waiting
    refine ⟨AList.lookup_eq_none.1 ?_, ?_⟩
    · rw [dispatchChange_lookup, missing]
      rfl
    · dsimp only
      rw [if_neg notMem, (inv.unregistered waiting).2]
  · intro lsn here
    dsimp only at here ⊢
    rw [handled, List.filter_append, ← inv.passed lsn here]
    by_cases registered : ∃ inst n, s.phase = .registered inst n
    · obtain ⟨inst, n, phase⟩ := registered
      have present : u.key ∈ s.engine.streams := by
        rw [← AList.lookup_isSome, inv.stream inst n phase]
        rfl
      rw [if_pos present, List.filter_append]
    · have waiting : ∀ inst n, s.phase ≠ .registered inst n :=
        fun inst n phase => registered ⟨inst, n, phase⟩
      -- in the window a change past the snapshot would be lost here
      have window : s.phase.window = some lsn := by
        cases phase : s.phase <;> simp_all [Phase.position, Phase.window]
      rw [if_neg (absent waiting).2, List.filter_cons, clear lsn ch window head]
      simp
  · intro inst lsn phase
    have present : u.key ∈ s.engine.streams := by
      rw [← AList.lookup_isSome, inv.stream inst lsn phase]
      rfl
    dsimp only
    rw [dispatchChange_lookup, inv.stream inst lsn phase, if_pos present, List.foldl_append]
    rfl

/-- A request that moves on without registering: its position may only be dropped. -/
theorem inv_phase {phase : Phase C} (inv : Inv u s)
    (waiting : ∀ inst lsn, s.phase ≠ .registered inst lsn)
    (waiting' : ∀ inst lsn, phase ≠ .registered inst lsn)
    (kept : ∀ lsn, phase.position = some lsn → s.phase.position = some lsn) :
    Inv u { s with phase := phase } :=
  { inv with
    position := fun lsn here => inv.position lsn (kept lsn here)
    unregistered := fun _ => inv.unregistered waiting
    passed := fun lsn here => inv.passed lsn (kept lsn here)
    stream := fun inst lsn registered => absurd registered (waiting' inst lsn) }

theorem inv_take {rows : List (Option Row)} (inv : Inv u s)
    (stepped : step u s (.take rows) = some t) : Inv u t := by
  simp only [step] at stepped
  split at stepped
  · rename_i idle _
    cases stepped
    have fresh := inv.unregistered (by simp [idle])
    refine { inv with
      position := ?_, unregistered := fun _ => fresh, passed := ?_, stream := by simp }
    · intro lsn here
      cases here
      exact le_rfl
    · intro lsn here
      cases here
      dsimp only
      rw [fresh.2, inv.handled_old le_rfl]
      rfl
  · rename_i idle _
    cases stepped
    exact inv_phase inv (by simp [idle]) (by simp) (by simp [Phase.position])
  · cases stepped

theorem inv_load (inv : Inv u s) (stepped : step u s .load = some t) : Inv u t := by
  simp only [step] at stepped
  split at stepped
  · rename_i inst lsn rows phase
    split at stepped
    · cases stepped
      exact inv_phase inv (by simp [phase]) (by simp) (by simp [phase, Phase.position])
    · cases stepped
      exact inv_phase inv (by simp [phase]) (by simp) (by simp [Phase.position])
  · cases stepped

theorem inv_register (inv : Inv u s) (stepped : step u s .register = some t) : Inv u t := by
  simp only [step] at stepped
  split at stepped
  · rename_i inst lsn phase
    have fresh := inv.unregistered (by simp [phase])
    have here : s.phase.position = some lsn := by simp [phase, Phase.position]
    cases stepped
    refine { inv with position := ?_, unregistered := ?_, passed := ?_, stream := ?_ }
    · intro n same
      cases same
      exact inv.position lsn here
    · intro waiting
      exact absurd rfl (waiting inst lsn)
    · intro n same
      cases same
      exact inv.passed lsn here
    · intro inst' n same
      cases same
      dsimp only
      rw [fresh.2, AList.lookup_insert]
      rfl
  · cases stepped

theorem inv_step {ev : Event} (inv : Inv u s) (clear : Clear u s ev)
    (stepped : step u s ev = some t) : Inv u t := by
  cases ev with
  | commit lsn changes => exact inv_commit inv stepped
  | advance lsn =>
      simp only [step, Option.ite_none_right_eq_some, Option.some.injEq] at stepped
      obtain ⟨later, rfl⟩ := stepped
      exact { inv with
        positions := fun ch member => (inv.positions ch member).trans later.le
        position := fun n here => (inv.position n here).trans later.le }
  | consume gap => exact inv_consume inv stepped
  | tickRead =>
      simp only [step, Option.ite_none_right_eq_some, Option.some.injEq] at stepped
      obtain ⟨-, rfl⟩ := stepped
      exact { inv with }
  | dispatch => exact inv_dispatch inv clear stepped
  | tickAbort =>
      cases stepped
      exact { inv with }
  | take rows => exact inv_take inv stepped
  | load => exact inv_load inv stepped
  | register => exact inv_register inv stepped

/-- A change dispatched in the window never reaches the instance. -/
theorem lost_in_window {ev : Event} (inv : Inv u s) (unclear : ¬ Clear u s ev)
    (stepped : step u s ev = some t) : ¬ Gapless u t := by
  cases ev with
  | dispatch =>
      simp only [Clear, not_forall, Bool.not_eq_false] at unclear
      obtain ⟨lsn, ch, window, head, past⟩ := unclear
      have waiting : ∀ inst n, s.phase ≠ .registered inst n := by
        intro inst n phase
        simp [phase, Phase.window] at window
      obtain ⟨absent, none⟩ := inv.unregistered waiting
      obtain ⟨ch', feed, next, rfl⟩ := step_dispatch stepped
      intro gapless
      obtain ⟨head', handled, -⟩ := Cursor.next_spec next
      cases head.symm.trans head'
      have here : s.phase.position = some lsn := by
        cases phase : s.phase <;> simp_all [Phase.position, Phase.window]
      have same := gapless.passed lsn here
      dsimp only at same
      rw [if_neg absent, none, handled, List.filter_append] at same
      simp [past] at same
  | _ => exact absurd trivial unclear

/-- **Gapless handoff.**  A run is gapless in every state it reaches exactly when it
never dispatches a change of the shape's table past the snapshot position between
`Take` and the registration. -/
theorem handoff_gapless_iff (u : Setup C) (events : List Event) :
    (machine u).Along (Gapless u) u.start events ↔
      (machine u).Meets (Clear u) u.start events :=
  Machine.along_iff_meets (I := Inv u) (fun _ inv => inv.gapless)
    (fun _ _ _ inv clear stepped => inv_step inv clear stepped)
    (fun _ _ _ inv unclear stepped => lost_in_window inv unclear stepped)
    (inv_start u) events

namespace LostChange

def tasks : Definition Unit :=
  { name := "tasks", schema := "", table := "", primaryKey := []
    bind := some fun _ => .ok (.notNull "id") }

def setup : Setup Unit where
  defn := tasks
  claims := ()
  engine := { registry := fun _ => some tasks, claimsKey := fun _ => "", exotic := fun _ => none }
  first := by decide

def task : Row := KeyMap.ofList [("id", .int64 1)]

def inserted : Change :=
  { schema := "public", table := "tasks", op := .insert, commitLSN := 10, new := some task }

/-- A tick runs between `Take` at position 0 and the registration. -/
def schedule : List Event :=
  [.take [], .commit 10 [inserted], .consume 0, .tickRead, .dispatch, .load, .register]

/-- The task is committed past the snapshot and dispatched, and the registered
stream never sees it: the cursor is past it and the stream holds no row. -/
theorem change_lost_in_window :
    ∃ t inst, (machine setup).run setup.start schedule = some t ∧
      t.feed.handled = [inserted] ∧ t.feed.rows = t.feed.done ∧ t.passed = [] ∧
      t.engine.streams.lookup setup.key = some inst ∧ inst.snapshotLSN = 0 ∧
      inst.materialized = 0 ∧ ¬ Gapless setup t := by
  refine ⟨_, _, rfl, by decide, by decide, rfl, rfl, rfl, rfl, fun gapless => ?_⟩
  have same := gapless.passed 0 rfl
  revert same
  decide

end LostChange

end Tether.Handoff
