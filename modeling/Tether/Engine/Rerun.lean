/-
# Tether.Engine.Rerun — one engine, several calls of `Run`

`Run` gives up on any replication error, and the host calls it again.  The cursor of
fan-out is a variable of the call and starts at 0; the streams belong to the engine and
stay.  The only gate between a row of `change_log` and a stream is the LSN of the
stream's snapshot, so the next call applies every row past it once more.

`effects` remembers which row made `Apply` append to which instance.  No pair comes up
twice (`Once`) as long as a call of `Run` starts while no registered stream has been
changed by fan-out (`StartsFresh`).
-/
import Tether.Engine.Ticks

namespace Tether.Rerun

open Lib Wal Shape

set_option autoImplicit false

/-- `recovering` is up from the start of a slot-lag recovery to its end; `effects` is a
ghost, the instances that `Apply` appended to, each with the id of the row. -/
structure State (C : Type) where
  live : Live.State C := {}
  fan : FanOut.State
  recovering : Bool := false
  effects : List (Nat × Nat) := []

inductive Ev (C : Type) where
  | live (e : Live.Ev C)
  | fan (e : FanOut.Event)
  /-- Fan-out takes the next row of its result set to `dispatchChange`. -/
  | dispatch (order : List String) (listed : List Nat)
  /-- The last step of a recovery. -/
  | resetCursor
  /-- `Run` has returned, and is called again. -/
  | rerun

/-- The instance that the next step of `dispatchChange` appends to. -/
def effect {C : Type} (live : Live.State C) : Option Nat :=
  match live.work with
  | .appending _ _ a m =>
      (live.heap[a]?).bind fun inst =>
        if (inst.log.append m.op inst.defn.table m.row).isOk then some a else none
  | _ => none

/-- What a step of `Live` adds to `effects`. -/
def caused {C : Type} (live : Live.State C) (id : Nat) : Live.Ev C → List (Nat × Nat)
  | .run => (effect live).toList.map fun a => (a, id)
  | _ => []

section Steps

variable {C : Type} (u : Live.Setup C)

namespace State

variable (s : State C)

def loops : Bool := s.live.rests && !s.recovering

/-- `copy` is part of `dispatch`; idle clients are swept and the lag guard is tested after a
tick. -/
def admits : Live.Ev C → Bool
  | .copy _ _ _ => false
  | .recover _ | .sweep _ => !s.recovering && s.fan.batch.isNone
  | _ => true

/-- The consumer runs beside the ticks. -/
def ticks : FanOut.Event → Bool
  | .tick | .tickFails | .stop => s.loops
  | .commit _ _ _ | .rollback _ => true
  | .row => false

def starts : Live.Ev C → Bool
  | .recover _ => true
  | _ => false

end State

def step [LSNText] (s : State C) : Ev C → Option (State C)
  | .live e =>
      if s.admits e then
        (Live.step u s.live e).map fun live =>
          { s with
            live := live
            recovering := s.recovering || State.starts e
            effects := s.effects ++ caused s.live s.fan.lastID e }
      else none
  | .fan e =>
      if s.ticks e then (FanOut.step s.fan e).map fun fan => { s with fan := fan } else none
  | .dispatch order listed =>
      if s.loops then
        (Live.dispatchRow u s.live s.fan order listed).map fun (live, fan) =>
          { s with live := live, fan := fan }
      else none
  | .resetCursor =>
      if s.recovering && s.live.rests then
        some { s with
          fan := { s.fan with lastID := s.fan.db.maxID, batch := none }
          recovering := false }
      else none
  | .rerun =>
      -- a recovery may fail half way, and `Run` returns its error
      if s.live.rests then
        some { s with fan := { s.fan with lastID := 0, batch := none }, recovering := false }
      else none

/-- A new engine, at its first call of `Run`. -/
structure Init [LSNText] (s : State C) : Prop where
  live : s.live = {}
  fan : FanOut.machine.init s.fan
  recovering : s.recovering = false
  effects : s.effects = []

def machine [LSNText] : Machine (State C) (Ev C) := ⟨Init, step u⟩

end Steps

variable {C : Type} {u : Live.Setup C} {s t : State C}

/-- **At most once.**  No row of `change_log` has made `Apply` append to the same stream
twice. -/
def Once (s : State C) : Prop := s.effects.Nodup

/-- `Run` is called while no registered stream has been appended to by fan-out. -/
def StartsFresh (s : State C) : Ev C → Bool
  | .rerun => s.live.streams.all fun _ a => s.effects.all fun p => p.1 ≠ a
  | _ => true

/-! ## The invariant -/

/-- The instances that the dispatch under way has still to come to. -/
def pending : Live.Work → List Nat
  | .applying r | .notifying r _ _ _ | .telling r _ _ _ _ => r.streams.map Prod.snd
  | .appending r _ a _ => a :: r.streams.map Prod.snd
  | .idle | .delivering _ | .sending _ _ _ | .broadcasting _ | .leaving _ _ _ | .parting _ _ => []

/-- What fan-out has done to the instances, with its cursor at `last`. -/
structure Effects (live : Live.State C) (last : Nat) (effects : List (Nat × Nat)) : Prop where
  valid : ∀ key a, live.streams.lookup key = some a → a < live.heap.length
  injective : ∀ key key' a, live.streams.lookup key = some a →
    live.streams.lookup key' = some a → key = key'
  known : ∀ p ∈ effects, p.1 < live.heap.length
  behind : ∀ key a, live.streams.lookup key = some a → ∀ id, (a, id) ∈ effects → id ≤ last
  ahead : (pending live.work).Nodup ∧ ∀ a ∈ pending live.work, (a, last) ∉ effects
  once : effects.Nodup

/-- No registered stream has been appended to. -/
def Untouched (live : Live.State C) (effects : List (Nat × Nat)) : Prop :=
  ∀ key a, live.streams.lookup key = some a → ∀ id, (a, id) ∉ effects

structure Applies (s : State C) : Prop where
  tracks : ∃ c, FanOut.Tracks s.fan c
  positive : ∀ r ∈ s.fan.db.rows, 0 < r.id
  effects : Effects s.live s.fan.lastID s.effects
  recovery : s.recovering = true →
    s.live.work.unwarned.isSome ∨ s.live.work = .idle ∧ Untouched s.live s.effects

section Live

variable {live live' : Live.State C} {last : Nat} {effects : List (Nat × Nat)}

/-- A step that registers nothing and leaves fan-out where it is. -/
theorem Effects.frame (holds : Effects live last effects) (streams : live'.streams = live.streams)
    (heap : live.heap.length ≤ live'.heap.length) (work : pending live'.work = pending live.work) :
    Effects live' last effects where
  valid key a held := (holds.valid key a (streams ▸ held)).trans_le heap
  injective := streams ▸ holds.injective
  known p member := (holds.known p member).trans_le heap
  behind := streams ▸ holds.behind
  ahead := work ▸ holds.ahead
  once := holds.once

/-- The cursor moves over rows that no registered stream has seen. -/
theorem Effects.move {last' : Nat} (holds : Effects live last effects)
    (idle : live.work = .idle)
    (behind : ∀ key a, live.streams.lookup key = some a → ∀ id, (a, id) ∈ effects → id ≤ last') :
    Effects live last' effects :=
  ⟨holds.valid, holds.injective, holds.known, behind, by simp [idle, pending], holds.once⟩

theorem lookup_store {key key' : String} {a : Nat}
    (held : (live.streams.insert key live.heap.length).lookup key' = some a) :
    (key' = key ∧ a = live.heap.length) ∨ live.streams.lookup key' = some a := by
  rw [KeyMap.lookup_insert_eq] at held
  split at held
  · next same =>
      cases held
      exact .inl ⟨same, rfl⟩
  · exact .inr held

/-- A new instance has an address of its own, which fan-out has not seen. -/
theorem effects_store (holds : Effects live last effects) {key : String}
    (streams : live'.streams = live.streams.insert key live.heap.length)
    (heap : live'.heap.length = live.heap.length + 1) (work : live'.work = live.work) :
    Effects live' last effects where
  valid key' a held := by
    rw [streams] at held
    rw [heap]
    rcases lookup_store held with ⟨-, rfl⟩ | old
    · exact Nat.lt_succ_self _
    · exact (holds.valid key' a old).trans (Nat.lt_succ_self _)
  injective key₁ key₂ a held₁ held₂ := by
    rw [streams] at held₁ held₂
    rcases lookup_store held₁ with ⟨rfl, rfl⟩ | old₁ <;>
      rcases lookup_store held₂ with ⟨rfl, here⟩ | old₂
    · rfl
    · exact absurd (holds.valid _ _ old₂) (Nat.lt_irrefl _)
    · exact absurd (holds.valid _ _ old₁) (here ▸ Nat.lt_irrefl _)
    · exact holds.injective _ _ _ old₁ old₂
  known p member := heap ▸ (holds.known p member).trans (Nat.lt_succ_self _)
  behind key' a held id member := by
    rw [streams] at held
    rcases lookup_store held with ⟨-, rfl⟩ | old
    · exact absurd (holds.known _ member) (Nat.lt_irrefl _)
    · exact holds.behind key' a old id member
  ahead := work ▸ holds.ahead
  once := holds.once

theorem untouched_store (holds : Effects live last effects) (untouched : Untouched live effects)
    {key : String} (streams : live'.streams = live.streams.insert key live.heap.length) :
    Untouched live' effects := by
  intro key' a held id member
  rw [streams] at held
  rcases lookup_store held with ⟨-, rfl⟩ | old
  · exact absurd (holds.known _ member) (Nat.lt_irrefl _)
  · exact untouched key' a old id member

/-- `dispatchChange` copies the streams: each instance once, and none that has seen the
row. -/
theorem effects_copy {order : List String} {ch : Change} {listed : List Nat} {last' : Nat}
    (holds : Effects live last effects) (nodup : order.Nodup) (onward : last < last') :
    Effects { live with
      work := .applying { change := ch, listed := listed, streams := live.copied order } }
      last' effects where
  valid := holds.valid
  injective := holds.injective
  known := holds.known
  behind key a held id member := (holds.behind key a held id member).trans onward.le
  ahead := by
    have addresses : (live.copied order).map Prod.snd = order.filterMap live.streams.lookup := by
      simp [Live.State.copied, List.map_filterMap, Function.comp_def]
    simp only [pending, addresses]
    refine ⟨nodup.filterMap fun key key' a held held' => holds.injective key key' a held held',
      fun a member seen => ?_⟩
    obtain ⟨key, -, held⟩ := List.mem_filterMap.1 member
    exact absurd (holds.behind key a held last' seen) (Nat.not_le.2 onward)
  once := holds.once

theorem effect_some {a : Nat} (appends : effect live = some a) :
    ∃ r key m, live.work = .appending r key a m ∧ a < live.heap.length := by
  unfold effect at appends
  split at appends
  · next r key a' m work =>
      obtain ⟨inst, found, appended⟩ := Option.bind_eq_some_iff.1 appends
      split at appended
      · cases appended
        exact ⟨r, key, m, work, (List.getElem?_eq_some_iff.1 found).1⟩
      · cases appended
  · cases appends

/-- Only the second half of `Apply` has an effect. -/
theorem effect_eq_none (other : ∀ r key a m, live.work ≠ .appending r key a m) :
    effect live = none := by
  cases appends : effect live with
  | none => rfl
  | some a =>
      obtain ⟨r, key, m, work, -⟩ := effect_some appends
      exact absurd work (other r key a m)

theorem effect_eq {r : Live.Round} {key : String} {a b : Nat} {m : Move}
    (work : live.work = .appending r key a m) (appends : effect live = some b) : b = a := by
  obtain ⟨r', key', m', work', -⟩ := effect_some appends
  cases work.symm.trans work'
  rfl

theorem pending_afterError (r : Live.Round) (key : String) (err : ShapeError) :
    pending (Live.State.afterError r key err) = r.streams.map Prod.snd := by
  unfold Live.State.afterError
  split <;> rfl

/-- A step of the goroutine of `Run` leaves the instances it was to come to, or is done with
the first of them, which is the one it may append to. -/
theorem pending_run (ran : Live.RunStep live live') :
    (pending live'.work = pending live.work ∧ effect live = none) ∨
      ∃ a, pending live.work = a :: pending live'.work ∧ ∀ b, effect live = some b → b = a := by
  cases ran with
  | applied work done =>
      exact .inl ⟨by simp [work, done, pending], effect_eq_none (by simp [work])⟩
  | @silent r key a streams inst work' work more _ _ left =>
      have none : effect live = none := effect_eq_none (by simp [work])
      refine .inr ⟨a, ?_, by simp [none]⟩
      have rest : pending work' = streams.map Prod.snd := by
        rcases left with rfl | ⟨err, rfl⟩
        · rfl
        · exact pending_afterError _ _ _
      show _ = a :: pending work'
      rw [rest, work]
      simp only [pending, more, List.map_cons]
  | cached work more _ _ =>
      exact .inl ⟨by simp [work, more, pending], effect_eq_none (by simp [work])⟩
  | appended work _ _ => exact .inr ⟨_, by simp [work, pending], fun b => effect_eq work⟩
  | unappended work =>
      refine .inr ⟨_, ?_, fun b => effect_eq work⟩
      rw [pending_afterError, work, pending]
  | notify work left | deliver work left =>
      refine .inl ⟨?_, effect_eq_none (by simp [work])⟩
      rcases left with rfl | rfl <;> simp [work, pending]
  | clear work =>
      exact .inl ⟨by simp [work, Live.State.clear, pending], effect_eq_none (by simp [work])⟩
  | notified work | finish work =>
      exact .inl ⟨by simp [work, pending], effect_eq_none (by simp [work])⟩
  | tell work _ | delivered work _ | slow work _ | broadcast work _ | unwarned work _
  | bye work _ =>
      exact .inl ⟨by simp [work, pending], effect_eq_none (by simp [work])⟩
  | sent work _ _ _ =>
      exact .inl ⟨by simp [work, pending], effect_eq_none (by simp [work])⟩
  | @parted j rest work =>
      refine .inl ⟨?_, effect_eq_none (by simp [work])⟩
      rw [work]
      cases rest <;> rfl

theorem mem_caused {p : Nat × Nat} (member : p ∈ caused live last .run) :
    p.2 = last ∧ effect live = some p.1 := by
  obtain ⟨a, appends, rfl⟩ := List.mem_map.1 member
  exact ⟨rfl, Option.mem_toList.1 appends⟩

/-- The instance a step appends to was still to come. -/
theorem mem_pending_of_effect {a : Nat} (appends : effect live = some a) :
    a ∈ pending live.work ∧ a < live.heap.length := by
  obtain ⟨r, key, m, work, inside⟩ := effect_some appends
  exact ⟨by simp [work, pending], inside⟩

theorem nodup_caused (holds : Effects live last effects) :
    (effects ++ caused live last .run).Nodup := by
  refine List.nodup_append.2 ⟨holds.once, ?_, fun p old p' new same => ?_⟩
  · unfold caused
    cases effect live <;> simp
  · obtain ⟨id, appends⟩ := mem_caused new
    refine holds.ahead.2 p'.1 (mem_pending_of_effect appends).1 ?_
    rwa [← id, ← same]

/-- The instances still to come after a step have not seen the row. -/
theorem ahead_run (holds : Effects live last effects) (ran : Live.RunStep live live') :
    (pending live'.work).Nodup ∧
      ∀ a ∈ pending live'.work, (a, last) ∉ effects ++ caused live last .run := by
  obtain ⟨nodup, unseen⟩ := holds.ahead
  rcases pending_run ran with ⟨same, none⟩ | ⟨first, split, only⟩
  · rw [same]
    refine ⟨nodup, fun a member seen => ?_⟩
    rcases List.mem_append.1 seen with old | new
    · exact unseen a member old
    · exact Option.some_ne_none _ ((mem_caused new).2.symm.trans none)
  · rw [split] at nodup unseen
    obtain ⟨apart, nodup'⟩ := List.nodup_cons.1 nodup
    refine ⟨nodup', fun a member seen => ?_⟩
    rcases List.mem_append.1 seen with old | new
    · exact unseen a (List.mem_cons_of_mem _ member) old
    · exact apart (only a (mem_caused new).2 ▸ member)

theorem effects_run (holds : Effects live last effects) (ran : Live.RunStep live live') :
    Effects live' last (effects ++ caused live last .run) := by
  have quiet := Live.background_run ran
  have heap := quiet.heap.length_le
  have streams : ∀ {key a}, live'.streams.lookup key = some a →
      live.streams.lookup key = some a := by
    intro key a held
    rcases quiet.streams with same | ⟨-, none⟩
    · exact same ▸ held
    · rw [none] at held
      cases held
  refine ⟨fun key a held => (holds.valid key a (streams held)).trans_le heap,
    fun key key' a held held' => holds.injective key key' a (streams held) (streams held'),
    fun p member => ?_, fun key a held id member => ?_, ahead_run holds ran, nodup_caused holds⟩
  · rcases List.mem_append.1 member with old | new
    · exact (holds.known p old).trans_le heap
    · exact (mem_pending_of_effect (mem_caused new).2).2.trans_le heap
  · rcases List.mem_append.1 member with old | new
    · exact holds.behind key a (streams held) id old
    · exact (mem_caused new).1.le

/-- A recovery ends with no streams; until its end nothing is dispatched. -/
theorem recovery_run (recovery : live.work.unwarned.isSome ∨
      live.work = .idle ∧ Untouched live effects) (ran : Live.RunStep live live') :
    live'.work.unwarned.isSome ∨
      live'.work = .idle ∧ Untouched live' (effects ++ caused live last .run) := by
  rcases recovery with broadcasts | ⟨idle, -⟩
  · cases ran with
    | clear _ =>
        refine .inr ⟨rfl, fun key a held => ?_⟩
        cases held
    | broadcast _ _ | unwarned _ _ => exact .inl rfl
    | @bye j reason rest _ _ work _ | @parted j rest work =>
        rw [work] at broadcasts
        cases rest with
        | idle | delivering => cases broadcasts
        | broadcasting left => exact .inl rfl
    | applied work | silent work | cached work | appended work | unappended work
    | notified work | notify work | tell work | finish work | deliver work
    | delivered work | sent work | slow work =>
        rw [work] at broadcasts
        cases broadcasts
  · cases ran with
    | applied work | silent work | cached work | appended work | unappended work
    | notified work | notify work | tell work | finish work | deliver work
    | delivered work | sent work | slow work | clear work | broadcast work | unwarned work
    | bye work | parted work => cases idle.symm.trans work

end Live

/-! ## The steps -/

/-- A step beside fan-out, with fan-out where it was. -/
theorem applies_beside {live : Live.State C} (applies : Applies s)
    (holds : Effects live s.fan.lastID s.effects) (work : live.work = s.live.work)
    (untouched : Untouched s.live s.effects → Untouched live s.effects) :
    Applies { s with live := live } := by
  refine ⟨applies.tracks, applies.positive, holds, fun recovering => ?_⟩
  rw [work]
  exact (applies.recovery recovering).imp id fun ⟨idle, before⟩ => ⟨idle, untouched before⟩

theorem applies_frame {live : Live.State C} (applies : Applies s)
    (streams : live.streams = s.live.streams) (heap : live.heap = s.live.heap)
    (work : live.work = s.live.work) : Applies { s with live := live } :=
  applies_beside applies (applies.effects.frame streams (by rw [heap]) (by rw [work])) work
    fun untouched => by unfold Untouched; rwa [streams]

/-- The steps of the sessions. -/
theorem applies_session {e : Live.Ev C} {live : Live.State C} (applies : Applies s)
    (apart : e ≠ .run ∧ (∀ ch order listed, e ≠ .copy ch order listed) ∧
      (∀ listed, e ≠ .recover listed) ∧ ∀ j, e ≠ .sweep j)
    (stepped : Live.step u s.live e = some live) : Applies { s with live := live } := by
  obtain ⟨notRun, notCopy, notRecover, notSweep⟩ := apart
  cases Live.step_spec stepped with
  | connect _ _ | client _ _ => exact applies_frame applies rfl rfl rfl
  | store _ _ _ =>
      refine applies_beside applies (effects_store applies.effects rfl ?_ rfl) rfl
        fun untouched => untouched_store applies.effects untouched rfl
      simp [Live.State.store]
  | background _ aside =>
      cases aside with
      | buffer _ => exact applies_frame applies rfl rfl rfl
      | copy event _ _ _ _ => exact absurd event (notCopy _ _ _)
      | recover event _ => exact absurd event (notRecover _)
      | sweep _ event _ => exact absurd event (notSweep _)
      | run event _ => exact absurd event notRun

theorem applies_live {e : Live.Ev C} {live : Live.State C} (applies : Applies s)
    (admitted : s.admits e = true) (stepped : Live.step u s.live e = some live) :
    Applies { s with
      live := live
      recovering := s.recovering || State.starts e
      effects := s.effects ++ caused s.live s.fan.lastID e } := by
  cases e with
  | run =>
      have ran := Live.runStep_spec stepped
      refine ⟨applies.tracks, applies.positive, effects_run applies.effects ran,
        fun recovering => recovery_run (applies.recovery ?_) ran⟩
      simpa [State.starts] using recovering
  | copy ch order listed => cases admitted
  | recover listed =>
      simp only [Live.step] at stepped
      split at stepped
      · next idle =>
          split at stepped
          · cases stepped
            simp only [caused, List.append_nil]
            exact ⟨applies.tracks, applies.positive,
              applies.effects.frame rfl le_rfl (by simp [idle, pending]),
              fun _ => .inl rfl⟩
          · cases stepped
      · cases stepped
  | sweep j =>
      have running : s.recovering = false := by
        simp only [State.admits, Bool.and_eq_true, Bool.not_eq_true'] at admitted
        exact admitted.1
      obtain ⟨c, -, moved⟩ := Option.bind_eq_some_iff.1 stepped
      split at moved
      · next idle _ =>
          cases moved
          simp only [caused, List.append_nil]
          refine ⟨applies.tracks, applies.positive,
            applies.effects.frame rfl le_rfl (by simp [idle, pending]), ?_⟩
          simp [running, State.starts]
      · cases moved
  | _ =>
      simp only [caused, List.append_nil, State.starts, Bool.or_false]
      exact applies_session applies (by simp) stepped

theorem applies_dispatch [LSNText] (applies : Applies s) (loops : s.loops = true)
    {order : List String}
    {listed : List Nat} {live : Live.State C} {fan : FanOut.State}
    (stepped : Live.dispatchRow u s.live s.fan order listed = some (live, fan)) :
    Applies { s with live := live, fan := fan } := by
  simp only [State.loops, Bool.and_eq_true, Bool.not_eq_true'] at loops
  obtain ⟨rests, running⟩ := loops
  obtain ⟨c, tracks⟩ := applies.tracks
  obtain ⟨⟨r, later, reading⟩, row, moved⟩ := Live.dispatchRow_spec stepped
  obtain ⟨onward, ch, read, c', -, tracks'⟩ := FanOut.exists_tracks_row tracks reading
  simp only [FanOut.step, reading, read] at row
  cases row
  refine ⟨⟨c', tracks'⟩, applies.positive, ?_, fun recovering => ?_⟩
  swap
  · exact absurd recovering (by simp [running])
  rcases moved with rfl | ⟨ch', copied⟩
  · refine applies.effects.move (Live.State.rests_iff.1 rests) fun key a held id member => ?_
    exact (applies.effects.behind key a held id member).trans onward.le
  · simp only [Live.step] at copied
    split at copied
    · split at copied
      · next orders =>
          cases copied
          exact effects_copy applies.effects orders.1 onward
      · cases copied
    · cases copied

theorem fan_step [LSNText] {f f' : FanOut.State} {e : FanOut.Event} (other : e ≠ .row)
    (stepped : FanOut.step f e = some f') :
    f'.lastID = f.lastID ∧ ((∀ r ∈ f.db.rows, 0 < r.id) → 0 < f.db.nextID →
      ∀ r ∈ f'.db.rows, 0 < r.id) := by
  cases e with
  | row => exact absurd rfl other
  | commit lsn xid changes =>
      simp only [FanOut.step] at stepped
      split at stepped
      · cases stepped
        refine ⟨rfl, fun positive started r member => ?_⟩
        obtain ⟨new, rows, ids⟩ := f.db.rows_persist lsn xid changes
        rcases List.mem_append.1 (rows ▸ member) with old | fresh
        · exact positive r old
        · exact started.trans_le (ids r fresh)
      · cases stepped
  | rollback ids =>
      cases stepped
      exact ⟨rfl, fun positive _ => positive⟩
  | tick | tickFails | stop =>
      simp only [FanOut.step] at stepped
      split at stepped
      · cases stepped
        exact ⟨rfl, fun positive _ => positive⟩
      · cases stepped

theorem started_of_tracks {f : FanOut.State} {c : Cursor LogEntry} (tracks : FanOut.Tracks f c) :
    0 < f.db.nextID :=
  ((Nat.zero_le _).trans_lt c.started).trans_le tracks.db.next

theorem applies_fan [LSNText] {e : FanOut.Event} {fan : FanOut.State} (applies : Applies s)
    (other : e ≠ .row) (stepped : FanOut.step s.fan e = some fan) :
    Applies { s with fan := fan } := by
  obtain ⟨c, tracks⟩ := applies.tracks
  obtain ⟨c', tracks', -⟩ := FanOut.exists_tracks_step tracks stepped
  obtain ⟨last, positive⟩ := fan_step other stepped
  exact ⟨⟨c', tracks'⟩, positive applies.positive (started_of_tracks tracks),
    last ▸ applies.effects, applies.recovery⟩

/-- The cursor of a call of `Run` starts before every row. -/
theorem exists_tracks_start [LSNText] {f : FanOut.State} {c : Cursor LogEntry}
    (tracks : FanOut.Tracks f c)
    (positive : ∀ r ∈ f.db.rows, 0 < r.id) :
    ∃ c', FanOut.Tracks { f with lastID := 0, batch := none } c' := by
  have started := started_of_tracks tracks
  have initial : FanOut.machine.init { f with lastID := 0, batch := none, dispatched := [] } :=
    ⟨rfl, rfl, rfl, started, fun r member => ⟨positive r member, tracks.db.parses r member⟩⟩
  obtain ⟨c', follows⟩ := FanOut.exists_follows_init initial
  exact ⟨c', follows.db, follows.last, follows.batch⟩

theorem untouched_of_startsFresh (fresh : StartsFresh s .rerun = true) :
    Untouched s.live s.effects := by
  intro key a held id member
  have all := (KeyMap.all_iff s.live.streams _).1 fresh key a held
  simpa using List.all_eq_true.1 all (a, id) member

theorem applies_rerun [LSNText] (applies : Applies s) (rests : s.live.rests = true)
    (fresh : StartsFresh s .rerun = true) :
    Applies { s with
      fan := { s.fan with lastID := 0, batch := none }, recovering := false } := by
  obtain ⟨c, tracks⟩ := applies.tracks
  refine ⟨exists_tracks_start tracks applies.positive, applies.positive, ?_, nofun⟩
  refine applies.effects.move (Live.State.rests_iff.1 rests) fun key a held id member => ?_
  exact absurd member (untouched_of_startsFresh fresh key a held id)

theorem applies_reset (applies : Applies s) (recovering : s.recovering = true)
    (rests : s.live.rests = true) :
    Applies { s with
      fan := { s.fan with lastID := s.fan.db.maxID, batch := none }, recovering := false } := by
  obtain ⟨c, tracks⟩ := applies.tracks
  have idle := Live.State.rests_iff.1 rests
  refine ⟨FanOut.exists_tracks_reset tracks, applies.positive, ?_, nofun⟩
  refine applies.effects.move idle fun key a held id member => ?_
  rcases applies.recovery recovering with broadcasts | ⟨-, untouched⟩
  · rw [idle] at broadcasts
    cases broadcasts
  · exact absurd member (untouched key a held id)

theorem applies_init [LSNText] (initial : Init s) : Applies s := by
  obtain ⟨c, follows⟩ := FanOut.exists_follows_init initial.fan
  obtain ⟨-, -, -, -, rows⟩ := initial.fan
  refine ⟨⟨c, follows.toTracks⟩, fun r member => (rows r member).1, ?_, ?_⟩
  · rw [initial.live, initial.effects]
    exact ⟨by simp, by simp, by simp, by simp, by simp [pending], .nil⟩
  · simp [initial.recovering]

theorem applies_step [LSNText] {e : Ev C} (applies : Applies s) (fresh : StartsFresh s e = true)
    (stepped : step u s e = some t) : Applies t := by
  cases e with
  | live e =>
      simp only [step] at stepped
      split at stepped
      · next admitted =>
          obtain ⟨live, moved, rfl⟩ := Option.map_eq_some_iff.1 stepped
          exact applies_live applies admitted moved
      · cases stepped
  | fan e =>
      simp only [step] at stepped
      split at stepped
      · next ticks =>
          obtain ⟨fan, moved, rfl⟩ := Option.map_eq_some_iff.1 stepped
          refine applies_fan applies ?_ moved
          rintro rfl
          cases ticks
      · cases stepped
  | dispatch order listed =>
      simp only [step] at stepped
      split at stepped
      · next loops =>
          obtain ⟨⟨live, fan⟩, moved, rfl⟩ := Option.map_eq_some_iff.1 stepped
          exact applies_dispatch applies loops moved
      · cases stepped
  | resetCursor =>
      simp only [step] at stepped
      split at stepped
      · next done =>
          cases stepped
          obtain ⟨recovering, rests⟩ := Bool.and_eq_true_iff.1 done
          exact applies_reset applies recovering rests
      · cases stepped
  | rerun =>
      simp only [step] at stepped
      split at stepped
      · next rests =>
          cases stepped
          exact applies_rerun applies rests fresh
      · cases stepped

/-- **Each change reaches a stream at most once**, over all calls of `Run` that start with no
stream that fan-out has changed. -/
theorem once_of_startsFresh [LSNText] {s : State C} (initial : (machine u).init s)
    {es : List (Ev C)}
    (fresh : (machine u).Meets (fun s e => StartsFresh s e = true) s es) :
    (machine u).Along Once s es :=
  Machine.along_of_meets (I := Applies) (fun _ applies => applies.effects.once)
    (fun _ _ _ applies here stepped => applies_step applies here stepped)
    (applies_init initial) fresh

namespace Restarted

attribute [local instance] Wal.Pglogrepl.hexadecimal

open Live.Tasks

def start : State Unit := { fan := { db := .empty } }

theorem init_start : (machine setup).init start :=
  ⟨rfl, ⟨rfl, rfl, rfl, by decide, fun r => nofun⟩, rfl, rfl⟩

/-- A tick that takes one row through `dispatchChange`. -/
def tick (steps : Nat) : List (Ev Unit) :=
  [.fan .tick, .dispatch [streamKey "tasks" ""] [0]] ++ List.replicate steps (.live .run) ++
    [.fan .stop]

/-- A subscription, and a second task that fan-out hands to its stream. -/
def first : List (Ev Unit) :=
  subscribed.map .live ++ [.fan (.commit 20 700 [stored 2])] ++ tick 7

/-- The lag guard trips and the new streams are not there yet when `Run` fails; it is called
again after the session has subscribed to a new stream. -/
def recovered : List (Ev Unit) :=
  List.flatten [first, [.live (.recover [0])], List.replicate 2 (.live .run),
    [.subscribe 0 ["tasks"] none, .session 0, .session 0, .take 0 20 [task 1, task 2]].map .live,
    List.replicate 5 (.live (.session 0)), [.rerun, .fan (.commit 30 701 [stored 3])], tick 3,
    tick 7]

theorem once_of_startsFresh_recovered :
    ∃ s, (machine setup).run start recovered = some s ∧ s.effects = [(0, 1), (1, 2)] ∧ Once s := by
  have replay : ((machine setup).run start recovered).map (fun s => s.effects) =
      some [(0, 1), (1, 2)] := by
    decide +kernel
  obtain ⟨s, ran, effects⟩ := Option.map_eq_some_iff.1 replay
  exact ⟨s, ran, effects, (once_of_startsFresh init_start (by decide +kernel)).last ran⟩

/-- `Run` fails and is called again; nothing else happens. -/
def repeated : List (Ev Unit) := first ++ [.rerun] ++ tick 7

/-- The stream inserts the same row a second time. -/
theorem row_applied_twice :
    ∃ s, (machine setup).run start repeated = some s ∧ s.effects = [(0, 1), (0, 1)] ∧ ¬ Once s ∧
      (s.live.heap.map fun inst => inst.log.events.map fun ev => (ev.offset, ev.op)) =
        [[(1, .insert), (2, .insert), (3, .insert)]] ∧
      ∀ inst ∈ s.live.heap,
        (inst.log.events[1]?).map Event.row = (inst.log.events[2]?).map Event.row := by
  have replay : ((machine setup).run start repeated).map (fun s => (s.effects,
      s.live.heap.map fun inst => inst.log.events.map fun ev => (ev.offset, ev.op))) =
      some ([(0, 1), (0, 1)], [[(1, .insert), (2, .insert), (3, .insert)]]) := by
    decide +kernel
  have same : ((machine setup).run start repeated).all (fun s => s.live.heap.all fun inst =>
      (inst.log.events[1]?).map Event.row = (inst.log.events[2]?).map Event.row) = true := by
    decide +kernel
  obtain ⟨s, ran, seen⟩ := Option.map_eq_some_iff.1 replay
  simp only [Prod.mk.injEq] at seen
  obtain ⟨effects, events⟩ := seen
  rw [ran, Option.all_some] at same
  refine ⟨s, ran, effects, ?_, events, by simpa using same⟩
  rw [Once, effects]
  decide

end Restarted

end Tether.Rerun
