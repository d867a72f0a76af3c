/-
# Tether.Engine.Supervisor — one call of `Run`

`Run` starts a consumer in a goroutine of its own, hands `change_log` on with every tick and
watches the lag of the slot.  When the lag is too large it stops the consumer, drops the slot
and the checkpoint, moves the cursor of fan-out to the end of `change_log` and starts over.
Any call to the database may fail, the consumer may return at any time, and the host may
cancel at any time.

`run_supervised` says what holds in every state of such a call: there is never more than one
consumer nor more than one replication connection, none of them while the recovery is at
work, and none is left behind when `Run` returns, on whatever path.  Over all recoveries,
every row of `change_log` that is behind the cursor was passed once and in order: dispatched,
or skipped because it was there when a recovery moved the cursor.

`run_returns` says that a cancelled call comes to its end: it never waits for a result that
is not on its way, and ticks apart it has at most eleven steps left.

The goroutines and connections are counted, not named, so that a second one could be there.
A call to the database is one step, and a consumer that has returned writes nothing more.
-/
import Tether.Engine.FanOut

namespace Tether.Supervisor

open Lib Wal

set_option autoImplicit false

/-- The steps of `handleSlotLagExceeded`. -/
inductive Stage where
  | broadcast
  | clear
  | dropSlot
  | deleteCheckpoint
  | resetCursor
  deriving DecidableEq

/-- Where the goroutine of `Run` is; `lagged` says why it stops the consumer. -/
inductive Pc where
  /-- At the top of the loop of `Run`. -/
  | top
  /-- Connected, before `EnsureSlot`. -/
  | connected
  /-- That connection is closed, before the next one. -/
  | between
  /-- Before `NewConsumer`. -/
  | ready
  /-- In the `select` of `runConsumerCycle`. -/
  | selecting
  /-- In `fanOutNewChanges`, with the rows open. -/
  | ticking
  | sampling
  /-- The consumer is cancelled, and `Run` waits for its result. -/
  | stopping (lagged : Bool)
  | closing (lagged : Bool)
  | recovering (stage : Stage)
  | returned
  deriving DecidableEq

/-- `running` counts the goroutines in `Consumer.Run`, `results` what is in `errCh`, `conns`
the open replication connections.  `passed` and `recoveries` are ghosts: the rows behind the
cursor, with the change that was dispatched for them, and how often it was moved. -/
structure State where
  pc : Pc := .top
  cancelled : Bool := false
  running : Nat := 0
  results : Nat := 0
  conns : Nat := 0
  fan : FanOut.State
  passed : List (Nat × Option Change) := []
  recoveries : Nat := 0

/-- What `slotLagBytes` gets: an error, or the column of the slot's row, if there is one. -/
inductive Sample where
  | fails
  | row (lag : Option (Option Int))

inductive Ev where
  | cancel
  | consumerReturns
  /-- A durable transaction of the consumer, or one that fails. -/
  | commit (lsn : LSN) (xid : Nat) (changes : List StoredChange)
  | rollback (ids : Nat)
  | connect (ok : Bool)
  | ensureSlot (ok : Bool)
  | newConsumer (ok : Bool)
  /-- The cases of the `select`. -/
  | receive
  | done
  | tick (ok : Bool)
  | row
  | stop
  | lag (sample : Sample)
  | join
  | close
  | recover (ok : Bool)

section Steps

variable (maxSlotLag : Int)

/-- `SlotLagBytes`: no slot, no position and a negative lag all count as no lag. -/
def slotLagBytes : Option (Option Int) → Int
  | none | some none => 0
  | some (some lag) => if lag < 0 then 0 else lag

def exceeds (lag : Option (Option Int)) : Bool := 0 < maxSlotLag ∧ maxSlotLag < slotLagBytes lag

namespace State

variable (s : State)

/-- A step of fan-out, and what it has passed. -/
def fanOut [LSNText] (e : FanOut.Event) (pc : FanOut.State → Pc) : Option State :=
  (FanOut.step s.fan e).map fun fan =>
    { s with
      fan := fan
      pc := pc fan
      passed := s.passed ++
        (fan.dispatched.drop s.fan.dispatched.length).map fun d => (d.1, some d.2) }

/-- `resetFanoutCursor`. -/
def resetFanoutCursor : State :=
  { s with
    fan := { s.fan with lastID := s.fan.db.maxID, batch := none }
    passed := s.passed ++
      (s.fan.db.rows.filter fun r => s.fan.lastID < r.id).map fun r => (r.id, none)
    recoveries := s.recoveries + 1 }

/-- `handleSlotLagExceeded`; the first two steps cannot fail. -/
def handleSlotLagExceeded (stage : Stage) (ok : Bool) : State :=
  match stage with
  | .broadcast => { s with pc := .recovering .clear }
  | .clear => { s with pc := .recovering .dropSlot }
  | .dropSlot => { s with pc := if ok then .recovering .deleteCheckpoint else .returned }
  | .deleteCheckpoint => { s with pc := if ok then .recovering .resetCursor else .returned }
  | .resetCursor =>
      if ok then { s.resetFanoutCursor with pc := .top } else { s with pc := .returned }

end State

def step [LSNText] (s : State) : Ev → Option State
  | .cancel => some { s with cancelled := true }
  | .consumerReturns =>
      if 0 < s.running then
        some { s with running := s.running - 1, results := s.results + 1 }
      else none
  | .commit lsn xid changes =>
      if 0 < s.running then s.fanOut (.commit lsn xid changes) fun _ => s.pc else none
  | .rollback ids => if 0 < s.running then s.fanOut (.rollback ids) fun _ => s.pc else none
  | .connect ok =>
      match s.pc with
      | .top =>
          if s.cancelled ∨ ok = false then some { s with pc := .returned }
          else some { s with pc := .connected, conns := s.conns + 1 }
      | .between =>
          if ok then some { s with pc := .ready, conns := s.conns + 1 }
          else some { s with pc := .returned }
      | _ => none
  | .ensureSlot ok =>
      match s.pc with
      | .connected =>
          some { s with pc := if ok then .between else .returned, conns := s.conns - 1 }
      | _ => none
  | .newConsumer ok =>
      match s.pc with
      | .ready =>
          if ok then some { s with pc := .selecting, running := s.running + 1 }
          else some { s with pc := .returned, conns := s.conns - 1 }
      | _ => none
  | .receive =>
      match s.pc with
      | .selecting =>
          if 0 < s.results then
            some { s with pc := .closing false, results := s.results - 1 }
          else none
      | _ => none
  | .done =>
      match s.pc with
      | .selecting => if s.cancelled then some { s with pc := .stopping false } else none
      | _ => none
  | .tick ok =>
      match s.pc with
      | .selecting =>
          if ok then s.fanOut .tick fun _ => .ticking else s.fanOut .tickFails fun _ => .sampling
      | _ => none
  | .row =>
      match s.pc with
      | .ticking => s.fanOut .row fun fan => if fan.batch.isSome then .ticking else .sampling
      | _ => none
  | .stop =>
      match s.pc with
      | .ticking => s.fanOut .stop fun _ => .sampling
      | _ => none
  | .lag sample =>
      match s.pc, sample with
      | .sampling, .fails => some { s with pc := .selecting }
      | .sampling, .row lag =>
          some { s with pc := if exceeds maxSlotLag lag then .stopping true else .selecting }
      | _, _ => none
  | .join =>
      match s.pc with
      | .stopping lagged =>
          if 0 < s.results then
            some { s with pc := .closing lagged, results := s.results - 1 }
          else none
      | _ => none
  | .close =>
      match s.pc with
      | .closing lagged =>
          some { s with
            pc := if lagged then .recovering .broadcast else .returned
            conns := s.conns - 1 }
      | _ => none
  | .recover ok =>
      match s.pc with
      | .recovering stage => some (s.handleSlotLagExceeded stage ok)
      | _ => none

/-- `Run` comes to its loop, with whatever `change_log` holds. -/
structure Init [LSNText] (s : State) : Prop where
  pc : s.pc = .top
  none : s.running = 0 ∧ s.results = 0 ∧ s.conns = 0
  fan : FanOut.machine.init s.fan
  passed : s.passed = [] ∧ s.recoveries = 0

def machine [LSNText] : Machine State Ev := ⟨Init, step maxSlotLag⟩

end Steps

/-! ## The rows behind the cursor -/

variable {maxSlotLag : Int} {s t : State}

/-- The row was skipped, or the change is its own. -/
def Own [LSNText] (row : Nat × LogEntry) (d : Nat × Option Change) : Prop :=
  d.1 = row.1 ∧ ∀ ch ∈ d.2, row.2.readBack = some ch

structure Follows [LSNText] (s : State) (c : Cursor LogEntry) :
    Prop extends FanOut.Tracks s.fan c where
  done : List.Forall₂ Own c.done s.passed
  dispatched : s.fan.dispatched = s.passed.filterMap fun d => d.2.map fun ch => (d.1, ch)
  unskipped : s.recoveries = 0 → ∀ d ∈ s.passed, d.2.isSome

theorem follows_init [LSNText] (initial : Init s) : ∃ c, Follows s c := by
  obtain ⟨c, follows⟩ := FanOut.exists_follows_init initial.fan
  obtain ⟨-, -, nothing, -⟩ := initial.fan
  have done := follows.done
  rw [nothing] at done
  refine ⟨c, follows.toTracks, ?_, ?_, ?_⟩
  · rw [initial.passed.1, List.forall₂_nil_right_iff.1 done]
    exact .nil
  · rw [initial.passed.1, nothing]
    rfl
  · rw [initial.passed.1]
    simp

theorem follows_fanOut [LSNText] {e : FanOut.Event} {pc : FanOut.State → Pc}
    (follows : ∃ c, Follows s c)
    (stepped : s.fanOut e pc = some t) : ∃ c, Follows t c := by
  obtain ⟨c, follows⟩ := follows
  obtain ⟨fan, moved, rfl⟩ := Option.map_eq_some_iff.1 stepped
  obtain ⟨c', tracks, passes⟩ := FanOut.exists_tracks_step follows.toTracks moved
  cases passes with
  | nothing done dispatched _ =>
      rw [dispatched, List.drop_length, List.map_nil, List.append_nil]
      exact ⟨c', tracks, done ▸ follows.done, dispatched.trans follows.dispatched,
        follows.unskipped⟩
  | @row r ch done read dispatched _ =>
      rw [dispatched, List.drop_left]
      refine ⟨c', tracks, ?_, ?_, fun never d member => ?_⟩
      · rw [done]
        refine List.rel_append follows.done (.cons ⟨rfl, ?_⟩ .nil)
        rintro _ ⟨⟩
        exact read
      · rw [List.filterMap_append, ← follows.dispatched]
        exact dispatched
      · rcases List.mem_append.1 member with old | new
        · exact follows.unskipped never d old
        · cases List.mem_singleton.1 new
          rfl

/-- What the cursor is moved over is skipped. -/
theorem follows_reset [LSNText] (follows : ∃ c, Follows s c) :
    ∃ c, Follows s.resetFanoutCursor c := by
  obtain ⟨c, follows⟩ := follows
  obtain ⟨c', tracks⟩ := FanOut.exists_tracks_reset follows.toTracks
  have all : c'.done = c.done ++
      (s.fan.db.rows.filter fun r => s.fan.lastID < r.id).map FanOut.numbered := by
    calc c'.done = c'.rows := by
          rw [c'.done_eq_filter, List.filter_eq_self, tracks.db.rows, tracks.last]
          intro row member
          obtain ⟨r, stored, rfl⟩ := List.mem_map.1 member
          exact decide_eq_true (s.fan.db.le_maxID stored)
      _ = c.rows := tracks.db.rows.trans follows.db.rows.symm
      _ = c.done ++ c.rows.filter fun r => c.lastID < r.1 := c.done_append_ahead.symm
      _ = _ := by
          rw [follows.db.rows, follows.last, List.filter_map]
          rfl
  refine ⟨c', tracks, ?_, ?_, by simp [State.resetFanoutCursor]⟩
  · rw [all]
    refine List.rel_append follows.done ?_
    rw [List.forall₂_map_left_iff, List.forall₂_map_right_iff]
    exact List.forall₂_same.2 fun r _ => ⟨rfl, by simp⟩
  · show s.fan.dispatched = _
    rw [follows.dispatched]
    simp [State.resetFanoutCursor, List.filterMap_append]

/-- What a step does to the log, the cursor and the ghosts. -/
inductive Moves [LSNText] (s t : State) : Prop where
  | aside : t.fan = s.fan → t.passed = s.passed → t.recoveries = s.recoveries → Moves s t
  | fanOut {e : FanOut.Event} {pc : FanOut.State → Pc} : s.fanOut e pc = some t → Moves s t
  | reset : t = { s.resetFanoutCursor with pc := .top } → Moves s t

theorem moves_handleSlotLagExceeded [LSNText] (stage : Stage) (ok : Bool) :
    Moves s (s.handleSlotLagExceeded stage ok) := by
  cases stage with
  | resetCursor =>
      cases ok with
      | true => exact .reset rfl
      | false => exact .aside rfl rfl rfl
  | _ => exact .aside rfl rfl rfl

theorem moves_of_step [LSNText] {e : Ev} (stepped : step maxSlotLag s e = some t) : Moves s t := by
  -- every branch is closed, a step of fan-out, the recovery, or leaves the log alone
  cases e <;> simp only [step] at stepped <;> repeat' split at stepped
  all_goals first
    | cases stepped; exact .aside rfl rfl rfl
    | exact .fanOut stepped
    | cases stepped; exact moves_handleSlotLagExceeded _ _
    | cases stepped

theorem follows_step [LSNText] {e : Ev} (follows : ∃ c, Follows s c)
    (stepped : step maxSlotLag s e = some t) : ∃ c, Follows t c := by
  cases moves_of_step stepped with
  | aside fan passed recoveries =>
      obtain ⟨c, follows⟩ := follows
      refine ⟨c, fan ▸ follows.toTracks, passed ▸ follows.done, ?_, ?_⟩
      · rw [fan, passed]
        exact follows.dispatched
      · rw [recoveries, passed]
        exact follows.unskipped
  | fanOut moved => exact follows_fanOut follows moved
  | reset moved =>
      subst moved
      obtain ⟨c, follows⟩ := follows_reset follows
      exact ⟨c, follows.toTracks, follows.done, follows.dispatched, follows.unskipped⟩

/-! ## What is open where -/

/-- The consumers whose result `Run` has not received. -/
def Pc.consumers : Pc → Nat
  | .selecting | .ticking | .sampling | .stopping _ => 1
  | _ => 0

def Pc.conns : Pc → Nat
  | .connected | .ready | .selecting | .ticking | .sampling | .stopping _ | .closing _ => 1
  | _ => 0

structure Counted (s : State) : Prop where
  consumers : s.running + s.results = s.pc.consumers
  conns : s.conns = s.pc.conns
  reading : s.fan.batch.isSome ↔ s.pc = .ticking

theorem counted_init [LSNText] (initial : Init s) : Counted s := by
  obtain ⟨running, results, conns⟩ := initial.none
  refine ⟨?_, ?_, ?_⟩
  · rw [initial.pc, running, results]
    rfl
  · rw [initial.pc, conns]
    rfl
  · rw [initial.pc, initial.fan.2.1]
    simp

/-- `Run` goes on to `pc`, which is not among the rows of a tick. -/
theorem Counted.go (counted : Counted s) (pc : Pc) (running results conns : Nat)
    (cancelled : Bool) (idle : s.pc ≠ .ticking) (idle' : pc ≠ .ticking)
    (consumed : running + results = pc.consumers) (connected : conns = pc.conns) :
    Counted { s with
      pc := pc, running := running, results := results, conns := conns, cancelled := cancelled } :=
  ⟨consumed, connected, by simp [counted.reading, idle, idle']⟩

theorem counted_handleSlotLagExceeded {stage : Stage} (counted : Counted s)
    (pc : s.pc = .recovering stage) (ok : Bool) : Counted (s.handleSlotLagExceeded stage ok) := by
  obtain ⟨consumers, conns, reading⟩ := counted
  rw [pc] at consumers conns reading
  cases stage with
  | resetCursor =>
      cases ok with
      | true =>
          refine ⟨consumers, conns, ?_⟩
          simp [State.handleSlotLagExceeded, State.resetFanoutCursor]
      | false => exact ⟨consumers, conns, by simpa [State.handleSlotLagExceeded] using reading⟩
  | _ =>
      cases ok
      all_goals exact ⟨consumers, conns, by simpa [State.handleSlotLagExceeded] using reading⟩

/-- The rows of a tick are open exactly where `pc` says so. -/
theorem Counted.fanOut [LSNText] (counted : Counted s) {e : FanOut.Event} {pc : FanOut.State → Pc}
    (stepped : s.fanOut e pc = some t)
    (same : ∀ fan, (pc fan).consumers = s.pc.consumers ∧ (pc fan).conns = s.pc.conns)
    (reading : ∀ fan, FanOut.step s.fan e = some fan → (fan.batch.isSome ↔ pc fan = .ticking)) :
    Counted t := by
  obtain ⟨fan, moved, rfl⟩ := Option.map_eq_some_iff.1 stepped
  exact ⟨counted.consumers.trans (same fan).1.symm, counted.conns.trans (same fan).2.symm,
    reading fan moved⟩

theorem counted_step [LSNText] {e : Ev} (counted : Counted s)
    (stepped : step maxSlotLag s e = some t) : Counted t := by
  have consumers := counted.consumers
  have conns := counted.conns
  cases e with
  | cancel =>
      cases stepped
      exact ⟨consumers, conns, counted.reading⟩
  | consumerReturns =>
      simp only [step] at stepped
      split at stepped
      · cases stepped
        refine ⟨?_, conns, counted.reading⟩
        dsimp only
        omega
      · cases stepped
  | commit lsn xid changes =>
      simp only [step] at stepped
      split at stepped
      · refine counted.fanOut stepped (fun _ => ⟨rfl, rfl⟩) fun fan moved => ?_
        simp only [FanOut.step] at moved
        split at moved <;> cases moved
        exact counted.reading
      · cases stepped
  | rollback ids =>
      simp only [step] at stepped
      split at stepped
      · refine counted.fanOut stepped (fun _ => ⟨rfl, rfl⟩) fun fan moved => ?_
        cases moved
        exact counted.reading
      · cases stepped
  | connect ok =>
      simp only [step] at stepped
      split at stepped
      case h_1 pc =>
        rw [pc] at consumers conns
        split at stepped <;> cases stepped
        · exact counted.go _ _ _ _ _ (by simp [pc]) (by simp) consumers conns
        · exact counted.go _ _ _ _ _ (by simp [pc]) (by simp) consumers (by rw [conns]; rfl)
      case h_2 pc =>
        rw [pc] at consumers conns
        split at stepped <;> cases stepped
        · exact counted.go _ _ _ _ _ (by simp [pc]) (by simp) consumers (by rw [conns]; rfl)
        · exact counted.go _ _ _ _ _ (by simp [pc]) (by simp) consumers conns
      case h_3 => cases stepped
  | ensureSlot ok =>
      simp only [step] at stepped
      split at stepped
      case h_1 pc =>
        rw [pc] at consumers conns
        cases stepped
        cases ok
        all_goals exact counted.go _ _ _ _ _ (by simp [pc]) (by simp) consumers (by rw [conns]; rfl)
      case h_2 => cases stepped
  | newConsumer ok =>
      simp only [step] at stepped
      split at stepped
      case h_1 pc =>
        rw [pc] at consumers conns
        split at stepped <;> cases stepped
        · refine counted.go _ _ _ _ _ (by simp [pc]) (by simp) ?_ conns
          rw [Nat.add_right_comm, consumers]
          rfl
        · exact counted.go _ _ _ _ _ (by simp [pc]) (by simp) consumers (by rw [conns]; rfl)
      case h_2 => cases stepped
  | receive =>
      simp only [step] at stepped
      split at stepped
      case h_1 pc =>
        rw [pc] at consumers conns
        split at stepped <;> cases stepped
        refine counted.go _ _ _ _ _ (by simp [pc]) (by simp) ?_ conns
        simp only [Pc.consumers] at consumers ⊢
        omega
      case h_2 => cases stepped
  | done =>
      simp only [step] at stepped
      split at stepped
      case h_1 pc =>
        rw [pc] at consumers conns
        split at stepped <;> cases stepped
        exact counted.go _ _ _ _ _ (by simp [pc]) (by simp) consumers conns
      case h_2 => cases stepped
  | tick ok =>
      simp only [step] at stepped
      split at stepped
      case h_1 pc =>
        split at stepped
        · refine counted.fanOut stepped (fun _ => by rw [pc]; exact ⟨rfl, rfl⟩) fun fan moved => ?_
          simp only [FanOut.step] at moved
          split at moved <;> cases moved
          simp
        · refine counted.fanOut stepped (fun _ => by rw [pc]; exact ⟨rfl, rfl⟩) fun fan moved => ?_
          simp only [FanOut.step] at moved
          split at moved
          case isTrue idle =>
            cases moved
            simp [idle]
          case isFalse => cases moved
      case h_2 => cases stepped
  | row =>
      simp only [step] at stepped
      split at stepped
      case h_1 pc =>
        refine counted.fanOut stepped (fun fan => ?_) fun fan _ => ?_
        · rw [pc]
          split <;> exact ⟨rfl, rfl⟩
        · split
          case isTrue reading => simp [reading]
          case isFalse idle => simp [idle]
      case h_2 => cases stepped
  | stop =>
      simp only [step] at stepped
      split at stepped
      case h_1 pc =>
        refine counted.fanOut stepped (fun _ => by rw [pc]; exact ⟨rfl, rfl⟩) fun fan moved => ?_
        simp only [FanOut.step] at moved
        split at moved <;> cases moved
        simp
      case h_2 => cases stepped
  | lag sample =>
      simp only [step] at stepped
      split at stepped
      case h_1 pc =>
        rw [pc] at consumers conns
        cases stepped
        exact counted.go _ _ _ _ _ (by simp [pc]) (by simp) consumers conns
      case h_2 pc =>
        rw [pc] at consumers conns
        split at stepped <;> cases stepped
        all_goals exact counted.go _ _ _ _ _ (by simp [pc]) (by simp) consumers conns
      case h_3 => cases stepped
  | join =>
      simp only [step] at stepped
      split at stepped
      case h_1 lagged pc =>
        rw [pc] at consumers conns
        split at stepped <;> cases stepped
        refine counted.go _ _ _ _ _ (by simp [pc]) (by simp) ?_ conns
        simp only [Pc.consumers] at consumers ⊢
        omega
      case h_2 => cases stepped
  | close =>
      simp only [step] at stepped
      split at stepped
      case h_1 lagged pc =>
        rw [pc] at consumers conns
        cases stepped
        cases lagged
        all_goals
          exact counted.go _ _ _ _ _ (by simp [pc]) (by simp) consumers (by rw [conns]; rfl)
      case h_2 => cases stepped
  | recover ok =>
      simp only [step] at stepped
      split at stepped
      case h_1 stage pc =>
        cases stepped
        exact counted_handleSlotLagExceeded counted pc ok
      case h_2 => cases stepped

/-! ## Every state of a call -/

structure Supervised [LSNText] (s : State) : Prop where
  alone : s.running + s.results ≤ 1 ∧ s.conns ≤ 1
  /-- Nothing is open in the recovery, nor when `Run` has returned. -/
  quiet : (∃ stage, s.pc = .recovering stage) ∨ s.pc = .returned →
    s.running = 0 ∧ s.results = 0 ∧ s.conns = 0
  /-- The rows behind the cursor, each passed once and in order. -/
  passed : List.Forall₂ (fun (r : LogRow) d => d.1 = r.id ∧ ∀ ch ∈ d.2, r.readBack = some ch)
    (s.fan.db.rows.filter fun r => r.id ≤ s.fan.lastID) s.passed
  /-- Those that were not skipped were dispatched. -/
  dispatched : s.fan.dispatched = s.passed.filterMap fun d => d.2.map fun ch => (d.1, ch)
  once : s.fan.dispatched.Pairwise fun d d' => d.1 < d'.1
  unskipped : s.recoveries = 0 → ∀ d ∈ s.passed, d.2.isSome

theorem Counted.alone (counted : Counted s) : s.running + s.results ≤ 1 ∧ s.conns ≤ 1 := by
  rw [counted.consumers, counted.conns]
  cases s.pc <;> simp [Pc.consumers, Pc.conns]

theorem Counted.quiet (counted : Counted s)
    (idle : (∃ stage, s.pc = .recovering stage) ∨ s.pc = .returned) :
    s.running = 0 ∧ s.results = 0 ∧ s.conns = 0 := by
  have nothing : s.pc.consumers = 0 ∧ s.pc.conns = 0 := by
    rcases idle with ⟨stage, pc⟩ | pc
    all_goals
      rw [pc]
      exact ⟨rfl, rfl⟩
  have consumers := counted.consumers.trans nothing.1
  exact ⟨by omega, by omega, counted.conns.trans nothing.2⟩

theorem Follows.supervised [LSNText] {c : Cursor LogEntry} (follows : Follows s c)
    (counted : Counted s) :
    Supervised s := by
  have passed : List.Forall₂
      (fun (r : LogRow) d => d.1 = r.id ∧ ∀ ch ∈ d.2, r.readBack = some ch)
      (s.fan.db.rows.filter fun r => r.id ≤ s.fan.lastID) s.passed := by
    have done := follows.done
    rwa [c.done_eq_filter, follows.db.rows, follows.last, List.filter_map,
      List.forall₂_map_left_iff] at done
  have ids : s.passed.map Prod.fst =
      (s.fan.db.rows.filter fun r => r.id ≤ s.fan.lastID).map LogRow.id := by
    refine List.forall₂_eq_eq_eq ▸ List.forall₂_map_left_iff.2 (List.forall₂_map_right_iff.2 ?_)
    exact passed.flip.imp fun d r both => both.1
  have inOrder : s.passed.Pairwise fun d d' => d.1 < d'.1 := by
    refine List.pairwise_map.1 ?_
    rw [ids]
    exact List.pairwise_map.2 (s.fan.db.ordered.filter _)
  refine ⟨counted.alone, counted.quiet, passed, follows.dispatched, ?_, follows.unskipped⟩
  rw [follows.dispatched]
  refine inOrder.filterMap _ fun d d' before e some e' some' => ?_
  obtain ⟨ch, -, rfl⟩ := Option.map_eq_some_iff.1 some
  obtain ⟨ch', -, rfl⟩ := Option.map_eq_some_iff.1 some'
  exact before

theorem follows_and_counted [LSNText] (reached : (machine maxSlotLag).Reachable s) :
    (∃ c, Follows s c) ∧ Counted s :=
  Machine.reachable_induction (P := fun s => (∃ c, Follows s c) ∧ Counted s)
    (fun _ initial => ⟨follows_init initial, counted_init initial⟩)
    (fun _ _ _ both stepped => ⟨follows_step both.1 stepped, counted_step both.2 stepped⟩) reached

/-- **One consumer at a time, and every row passed once, whatever fails and however often the
slot is given up.** -/
theorem run_supervised [LSNText] (reached : (machine maxSlotLag).Reachable s) : Supervised s := by
  obtain ⟨⟨c, follows⟩, counted⟩ := follows_and_counted reached
  exact follows.supervised counted

namespace Lagging

attribute [local instance] Wal.Pglogrepl.hexadecimal

open FanOut.Interrupted (task)

/-- One cycle from the connections to the first tick. -/
def started (lsn : LSN) (changes : List StoredChange) : List Ev :=
  [.connect true, .ensureSlot true, .connect true, .newConsumer true, .commit lsn 700 changes,
    .tick true, .row, .stop]

/-- The tick stops after the first of two rows, the slot lags, and the next cycle goes on
behind the second. -/
def schedule : List Ev :=
  started 40 [task 1, task 2] ++
    [.lag (.row (some (some 2048))), .consumerReturns, .join, .close, .recover true,
      .recover true, .recover true, .recover true, .recover true] ++
    started 50 [task 3]

def start : State := { fan := { db := .empty } }

theorem init_start : Init start :=
  ⟨rfl, ⟨rfl, rfl, rfl⟩, ⟨rfl, rfl, rfl, by decide, by simp [start, Database.empty]⟩, rfl, rfl⟩

theorem run_supervised_lagging :
    ∃ s, (machine 1024).Reachable s ∧ s.fan.dispatched.map Prod.fst = [1, 3] ∧
      s.passed.map Prod.fst = [1, 2, 3] ∧ s.running = 1 ∧ Supervised s := by
  have replay : ((machine 1024).run start schedule).map (fun s =>
      (s.fan.dispatched.map Prod.fst, s.passed.map Prod.fst, s.running)) =
        some ([1, 3], [1, 2, 3], 1) := by
    decide +kernel
  obtain ⟨s, ran, shown⟩ := Option.map_eq_some_iff.1 replay
  obtain ⟨dispatched, passed, running⟩ := Prod.mk.inj shown |>.imp_right Prod.mk.inj
  have reached : (machine 1024).Reachable s := (Machine.Reachable.init init_start).run ran
  exact ⟨s, reached, dispatched, passed, running, run_supervised reached⟩

end Lagging

/-! ## Cancellation

A cancelled `Run` may find its ticker ready as well and take another tick.  Every other step it
takes brings it closer to its return. -/

/-- The steps that `Run` and its consumer have to take before `Run` returns. -/
def Pc.left : Pc → Nat
  | .returned => 0
  | .top | .closing false => 1
  | .recovering .resetCursor | .stopping false => 2
  | .recovering .deleteCheckpoint | .selecting => 3
  | .recovering .dropSlot => 4
  | .recovering .clear | .ready => 5
  | .recovering .broadcast | .between => 6
  | .closing true | .connected => 7
  | .stopping true => 8
  | .sampling => 9
  | .ticking => 10

def State.left (s : State) : Nat := s.pc.left + s.running

namespace Ev

def isTick : Ev → Bool
  | .tick _ => true
  | _ => false

/-- Neither the host nor the log nor a tick. -/
def own : Ev → Bool
  | .cancel | .commit .. | .rollback _ | .tick _ | .row => false
  | _ => true

end Ev

/-- A step of the fan-out moves `Run` to `pc` and leaves the consumer alone. -/
theorem left_fanOut [LSNText] {e : FanOut.Event} {pc : FanOut.State → Pc} {taken granted : Nat}
    (cancelled : s.cancelled = true) (stepped : s.fanOut e pc = some t)
    (bound : ∀ fan, (pc fan).left + taken ≤ s.pc.left + granted) :
    t.cancelled = true ∧ t.left + taken ≤ s.left + granted := by
  obtain ⟨fan, -, rfl⟩ := Option.map_eq_some_iff.1 stepped
  refine ⟨cancelled, ?_⟩
  have moved := bound fan
  show (pc fan).left + s.running + taken ≤ s.pc.left + s.running + granted
  omega

theorem left_handleSlotLagExceeded {stage : Stage} (pc : s.pc = .recovering stage) (ok : Bool) :
    (s.handleSlotLagExceeded stage ok).cancelled = s.cancelled ∧
      (s.handleSlotLagExceeded stage ok).left + 1 ≤ s.left := by
  cases stage <;> cases ok <;>
    simp [State.handleSlotLagExceeded, State.resetFanoutCursor, State.left, Pc.left, pc]

theorem left_step [LSNText] {e : Ev} (cancelled : s.cancelled = true)
    (stepped : step maxSlotLag s e = some t) :
    t.cancelled = true ∧
      t.left + (if e.own then 1 else 0) ≤ s.left + 7 * (if e.isTick then 1 else 0) := by
  cases e with
  | commit lsn xid changes | rollback ids =>
      simp only [step] at stepped
      split at stepped
      · exact left_fanOut cancelled stepped fun _ => le_rfl
      · cases stepped
  | tick ok =>
      simp only [step] at stepped
      split at stepped
      case h_1 pc =>
        split at stepped
        all_goals
          refine left_fanOut cancelled stepped fun _ => ?_
          rw [pc]
          simp [Pc.left, Ev.own, Ev.isTick]
      case h_2 => cases stepped
  | row =>
      simp only [step] at stepped
      split at stepped
      case h_1 pc =>
        refine left_fanOut cancelled stepped fun _ => ?_
        rw [pc]
        split <;> simp [Pc.left, Ev.own, Ev.isTick]
      case h_2 => cases stepped
  | stop =>
      simp only [step] at stepped
      split at stepped
      case h_1 pc =>
        refine left_fanOut cancelled stepped fun _ => ?_
        rw [pc]
        simp [Pc.left, Ev.own, Ev.isTick]
      case h_2 => cases stepped
  | join =>
      simp only [step] at stepped
      split at stepped
      case h_1 lagged pc =>
        split at stepped <;> cases stepped
        cases lagged <;> simp [State.left, Pc.left, Ev.own, Ev.isTick, pc, cancelled]
      case h_2 => cases stepped
  | recover ok =>
      simp only [step] at stepped
      split at stepped
      case h_1 stage pc =>
        cases stepped
        obtain ⟨same, left⟩ := left_handleSlotLagExceeded pc ok
        exact ⟨same.trans cancelled, left⟩
      case h_2 => cases stepped
  | _ =>
      simp only [step] at stepped
      repeat' split at stepped
      all_goals cases stepped
      all_goals simp_all [State.left, Pc.left, Ev.own, Ev.isTick]
      all_goals omega

/-- Until it has returned, a cancelled `Run` can go on: it never waits for a result that is
not on its way. -/
theorem exists_own_step [LSNText] (counted : Counted s) (cancelled : s.cancelled = true) :
    s.pc = .returned ∨ ∃ e t, e.own = true ∧ step maxSlotLag s e = some t := by
  cases pc : s.pc with
  | top => exact .inr ⟨.connect true, _, rfl, by simp only [step, pc, cancelled]; rfl⟩
  | connected => exact .inr ⟨.ensureSlot true, _, rfl, by simp only [step, pc]; rfl⟩
  | between => exact .inr ⟨.connect true, _, rfl, by simp only [step, pc]; rfl⟩
  | ready => exact .inr ⟨.newConsumer true, _, rfl, by simp only [step, pc]; rfl⟩
  | selecting => exact .inr ⟨.done, _, rfl, by simp only [step, pc, cancelled]; rfl⟩
  | ticking =>
      have reading := counted.reading.2 pc
      exact .inr ⟨.stop, _, rfl, by simp only [step, pc, State.fanOut, FanOut.step, reading]; rfl⟩
  | sampling => exact .inr ⟨.lag .fails, _, rfl, by simp only [step, pc]; rfl⟩
  | stopping lagged =>
      have one : s.running + s.results = 1 := counted.consumers.trans (by rw [pc]; rfl)
      by_cases arrived : 0 < s.results
      · exact .inr ⟨.join, _, rfl, by simp only [step, pc, arrived]; rfl⟩
      · have running : 0 < s.running := by omega
        exact .inr ⟨.consumerReturns, _, rfl, by simp only [step, running]; rfl⟩
  | closing lagged => exact .inr ⟨.close, _, rfl, by simp only [step, pc]; rfl⟩
  | recovering stage => exact .inr ⟨.recover true, _, rfl, by simp only [step, pc]; rfl⟩
  | returned => exact .inl rfl

theorem left_run [LSNText] {es : List Ev} (cancelled : s.cancelled = true)
    (ran : (machine maxSlotLag).run s es = some t) :
    t.cancelled = true ∧ t.left + es.countP Ev.own ≤ s.left + 7 * es.countP Ev.isTick := by
  induction es generalizing s with
  | nil =>
      cases ran
      exact ⟨cancelled, le_rfl⟩
  | cons e es ih =>
      obtain ⟨u, stepped, ran⟩ := Machine.run_cons.1 ran
      obtain ⟨cancelled', first⟩ := left_step cancelled stepped
      obtain ⟨cancelled'', rest⟩ := ih cancelled' ran
      refine ⟨cancelled'', ?_⟩
      rw [List.countP_cons, List.countP_cons]
      omega

theorem Counted.left_le (counted : Counted s) : s.left ≤ 11 := by
  have := counted.alone.1
  have bound : s.pc.left ≤ 10 := by
    cases s.pc with
    | closing lagged | stopping lagged => cases lagged <;> decide
    | recovering stage => cases stage <;> decide
    | _ => decide
  simp only [State.left]
  omega

/-- **A cancelled `Run` returns**: ticks apart, `Run` and its consumer take at most eleven more
steps, seven more for each further tick, and as long as `Run` has not returned there is one of
them to take. -/
theorem run_returns [LSNText] {es : List Ev} (reached : (machine maxSlotLag).Reachable s)
    (cancelled : s.cancelled = true) (ran : (machine maxSlotLag).run s es = some t) :
    es.countP Ev.own ≤ 11 + 7 * es.countP Ev.isTick ∧
      (t.pc = .returned ∨ ∃ e u, e.own = true ∧ step maxSlotLag t e = some u) := by
  obtain ⟨cancelled', spent⟩ := left_run cancelled ran
  have start := (follows_and_counted reached).2.left_le
  have counted := (follows_and_counted (reached.run ran)).2
  exact ⟨by omega, exists_own_step counted cancelled'⟩

namespace Lagging

attribute [local instance] Wal.Pglogrepl.hexadecimal

/-- The host cancels while the first recovery is at work. -/
def cancelledRun : List Ev :=
  started 40 [FanOut.Interrupted.task 1] ++
    [.lag (.row (some (some 2048))), .consumerReturns, .join, .close, .cancel]

theorem run_returns_lagging :
    ∃ s t, (machine 1024).Reachable s ∧ s.pc = .recovering .broadcast ∧ s.cancelled = true ∧
      (machine 1024).run s (List.replicate 5 (.recover true) ++ [.connect true]) = some t ∧
      t.pc = .returned ∧
      (List.replicate 5 (Ev.recover true) ++ [Ev.connect true]).countP Ev.own ≤ 11 := by
  have replay : ((machine 1024).run start cancelledRun).map (fun s =>
      (s.pc, s.cancelled, ((machine 1024).run s
        (List.replicate 5 (.recover true) ++ [.connect true])).map State.pc)) =
      some (.recovering .broadcast, true, some .returned) := by
    decide +kernel
  obtain ⟨s, ran, shown⟩ := Option.map_eq_some_iff.1 replay
  obtain ⟨pc, cancelled, rest⟩ := Prod.mk.inj shown |>.imp_right Prod.mk.inj
  obtain ⟨t, returned, pc'⟩ := Option.map_eq_some_iff.1 rest
  have reached : (machine 1024).Reachable s := (Machine.Reachable.init init_start).run ran
  exact ⟨s, t, reached, pc, cancelled, returned, pc', (run_returns reached cancelled returned).1⟩

end Lagging

end Tether.Supervisor
