/-
# Tether.Engine.Recovery — commits around the creation of a slot

A slot decodes the commits after its start and none before.  `Run` creates it, and
recreates it after slot lag: the sessions are told to re-snapshot, the streams are
forgotten, the slot and the checkpoint go, fan-out skips what `change_log` still holds,
and only then is there a new slot.  Clients subscribe all the while.

The state puts the commits of the source database and the slot next to the engine of
`Live` and the ticks of `FanOut`.  `NoGap` says that a commit past a stream's snapshot is
somewhere on its way: dispatched, waiting in `change_log`, or ahead of the slot.

It holds as long as every stream's snapshot is taken at or after the start of the slot it
meets (`InTime`).  Nothing in the code waits for that: a subscription between the
forgetting of the streams and the new slot, or before the first slot, may have a snapshot
that is older than the slot, and what was committed in between reaches no one.
-/
import Tether.Engine.Ticks

namespace Tether.Recovery

open Lib Wal Shape

set_option autoImplicit false

/-- A transaction of the source database, with its changes as `persist` stores them. -/
structure Commit where
  lsn : LSN
  xid : Nat
  changes : List StoredChange
  deriving DecidableEq

def Commit.entries (m : Commit) : List LogEntry := logEntries m.lsn m.xid 0 m.changes

/-- Where the goroutine of `Run` is: before `EnsureSlot`, before the consumer starts, in
the loop of `runConsumerCycle`, and in `handleSlotLagExceeded`, where `recovering` is up
to `DropSlot` and `forgotten` is past the deletion of the checkpoint. -/
inductive Phase where
  | starting
  | created
  | running
  | recovering
  | dropped
  | forgotten
  deriving DecidableEq

/-- `slot` is the start of the slot, if there is one; the commits up to `decoded` have been
decoded and persisted, or will never be. -/
structure State (C : Type) where
  live : Live.State C := {}
  fan : FanOut.State
  now : LSN
  commits : List Commit := []
  slot : Option LSN := none
  decoded : LSN
  phase : Phase := .starting

inductive Ev (C : Type) where
  | commit (lsn : LSN) (xid : Nat) (changes : List StoredChange)
  | live (e : Live.Ev C)
  | createSlot
  | startConsumer
  /-- The consumer decodes and persists the next commit. -/
  | decode
  | fan (e : FanOut.Event)
  /-- Fan-out takes the next row of its result set to `dispatchChange`. -/
  | dispatch (order : List String) (listed : List Nat)
  /-- The lag guard trips: the consumer is stopped and the recovery starts. -/
  | lag (listed : List Nat)
  | dropSlot
  | deleteCheckpoint
  | resetCursor

section Steps

variable {C : Type} (u : Live.Setup C)

namespace State

variable (s : State C)

/-- `runConsumerCycle` waits for its next tick, or is between two rows. -/
def loops : Bool := s.phase = .running ∧ s.live.rests

/-- The steps of `Live` that other parts of this model do not stand for.  `Take` reads a
position that the write-ahead log has reached. -/
def admits : Live.Ev C → Bool
  | .copy _ _ _ | .recover _ => false
  | .take _ lsn _ => lsn ≤ s.now
  | .sweep _ => s.loops ∧ s.fan.batch = none
  | _ => true

/-- The steps of a tick that dispatch nothing, and a `persist` that is cut short. -/
def ticks : FanOut.Event → Bool
  | .tick | .tickFails | .stop => s.loops
  | .rollback _ => s.phase = .running
  | .commit _ _ _ | .row => false

end State

def step [LSNText] (s : State C) : Ev C → Option (State C)
  | .commit lsn xid changes =>
      if s.now < lsn ∧ lsn < 2 ^ 64 then
        some { s with now := lsn, commits := s.commits ++ [⟨lsn, xid, changes⟩] }
      else none
  | .live e =>
      if s.admits e then (Live.step u s.live e).map fun live => { s with live := live } else none
  | .createSlot =>
      if s.phase = .starting then
        some { s with slot := some s.now, decoded := s.now, phase := .created }
      else none
  | .startConsumer =>
      if s.phase = .created then
        -- replication starts at the checkpoint, but never before the slot
        some { s with decoded := max s.decoded (s.fan.db.checkpoint.getD 0), phase := .running }
      else none
  | .decode =>
      match s.phase, s.commits.find? fun m => s.decoded < m.lsn with
      | .running, some m =>
          (FanOut.step s.fan (.commit m.lsn m.xid m.changes)).map fun fan =>
            { s with fan := fan, decoded := m.lsn }
      | _, _ => none
  | .fan e =>
      if s.ticks e then (FanOut.step s.fan e).map fun fan => { s with fan := fan } else none
  | .dispatch order listed =>
      if s.loops then
        (Live.dispatchRow u s.live s.fan order listed).map fun (live, fan) =>
          { s with live := live, fan := fan }
      else none
  | .lag listed =>
      if s.loops ∧ s.fan.batch = none then
        (Live.step u s.live (.recover listed)).map fun live =>
          { s with live := live, phase := .recovering }
      else none
  | .dropSlot =>
      if s.phase = .recovering ∧ s.live.rests then some { s with slot := none, phase := .dropped }
      else none
  | .deleteCheckpoint =>
      if s.phase = .dropped then
        some { s with
          fan := { s.fan with db := { s.fan.db with checkpoint := none } }
          phase := .forgotten }
      else none
  | .resetCursor =>
      if s.phase = .forgotten then
        some { s with
          fan := { s.fan with lastID := s.fan.db.maxID, batch := none }
          phase := .starting }
      else none

/-- `Run` starts with no slot and whatever `change_log` and `checkpoint` hold. -/
structure Init [LSNText] (s : State C) : Prop where
  live : s.live = {}
  fan : FanOut.machine.init s.fan
  logged : ∀ r ∈ s.fan.db.rows, r.lsn ≤ s.now
  confirmed : ∀ lsn ∈ s.fan.db.checkpoint, lsn ≤ s.now
  commits : s.commits = []
  slot : s.slot = none
  decoded : s.decoded = s.now
  phase : s.phase = .starting

def machine [LSNText] : Machine (State C) (Ev C) := ⟨Init, step u⟩

end Steps

/-! ## Gaps -/

variable {C : Type} {u : Live.Setup C} {s t : State C}

/-- The stream at `a` has subscribers, and each of them was sent `must_resnapshot` after it
subscribed. -/
def Resnapshotted (trace : List (Live.Note C)) (a : Nat) : Prop :=
  (∃ j halted, .subscribed j a halted ∈ trace) ∧
    ∀ before j halted after, trace = before ++ .subscribed j a halted :: after →
      .resnapshot j ∈ after

/-- What may have become of a change past the snapshot of the stream at `a`. -/
inductive Accounted [LSNText] (s : State C) (start : LSN) (a : Nat) (e : LogEntry) : Prop where
  | dispatched {r : LogRow} {ch : Change} : r ∈ s.fan.db.rows → r.toLogEntry = e →
      r.readBack = some ch → (r.id, ch) ∈ s.fan.dispatched → Accounted s start a e
  | waiting {r : LogRow} : r ∈ s.fan.db.rows → r.toLogEntry = e → s.fan.lastID < r.id →
      Accounted s start a e
  | undecoded : start < e.lsn → s.decoded < e.lsn → Accounted s start a e
  | resnapshot : Resnapshotted s.live.trace a → Accounted s start a e

/-- While there is a slot, no commit to the table of a registered stream is lost on it. -/
def NoGap [LSNText] (s : State C) : Prop :=
  ∀ start, s.slot = some start → ∀ key a, s.live.streams.lookup key = some a →
    ∃ inst, s.live.heap[a]? = some inst ∧
      ∀ m ∈ s.commits, inst.snapshotLSN < m.lsn → ∀ e ∈ m.entries,
        e.change.schema = inst.defn.schema → e.change.table = inst.defn.table →
          Accounted s start a e

/-- No slot starts after the snapshot of a stream: neither is a slot created while an older
stream is registered, nor an older stream registered while there is a slot. -/
def InTime (s : State C) : Ev C → Bool
  | .createSlot =>
      s.live.streams.all fun _ a =>
        (s.live.heap[a]?).all fun inst => s.now ≤ inst.snapshotLSN
  | .live (.session j) =>
      match (s.live.clients[j]?).map Live.Client.phase with
      | some (.loaded _ inst _ _) => s.slot.all fun start => start ≤ inst.snapshotLSN
      | _ => true
  | _ => true

/-! ## Fan-out after a reset -/

/-- Fan-out has dispatched the rows behind its cursor that are past `mark`, the id at which
it was last reset. -/
structure Dispatches [LSNText] (f : FanOut.State) (mark : Nat) : Prop where
  tracks : ∃ c, FanOut.Tracks f c
  marked : mark ≤ f.lastID
  behind : ∀ r ∈ f.db.rows, mark < r.id → r.id ≤ f.lastID →
    ∃ ch, r.readBack = some ch ∧ (r.id, ch) ∈ f.dispatched

theorem Dispatches.mark_lt [LSNText] {f : FanOut.State} {mark : Nat}
    (dispatches : Dispatches f mark) :
    mark < f.db.nextID := by
  obtain ⟨c, tracks⟩ := dispatches.tracks
  have started := c.started
  have next := tracks.db.next
  have marked := dispatches.marked
  rw [← tracks.last] at marked
  omega

theorem numbered_injective : Function.Injective FanOut.numbered := by
  rintro ⟨e, id⟩ ⟨e', id'⟩ same
  cases same
  rfl

/-- The rows behind the cursor are those that `done` holds. -/
theorem mem_done_iff {f : FanOut.State} {c : Cursor LogEntry} (tracks : FanOut.Tracks f c)
    (r : LogRow) : FanOut.numbered r ∈ c.done ↔ r ∈ f.db.rows ∧ r.id ≤ f.lastID := by
  rw [c.done_eq_filter, tracks.db.rows, tracks.last, List.mem_filter,
    List.mem_map_of_injective numbered_injective, decide_eq_true_eq]
  rfl

theorem dispatches_step [LSNText] {f f' : FanOut.State} {e : FanOut.Event} {mark : Nat}
    (dispatches : Dispatches f mark) (stepped : FanOut.step f e = some f') :
    Dispatches f' mark := by
  obtain ⟨c, tracks⟩ := dispatches.tracks
  obtain ⟨c', tracks', passes⟩ := FanOut.exists_tracks_step tracks stepped
  refine ⟨⟨c', tracks'⟩, ?_, fun r stored past reached => ?_⟩
  · cases passes with
    | nothing _ _ last => exact dispatches.marked.trans last.ge
    | row _ _ _ onward => exact dispatches.marked.trans onward
  · have done : FanOut.numbered r ∈ c'.done := (mem_done_iff tracks' r).2 ⟨stored, reached⟩
    cases passes with
    | nothing same dispatched _ =>
        rw [same] at done
        obtain ⟨stored, reached⟩ := (mem_done_iff tracks r).1 done
        rw [dispatched]
        exact dispatches.behind r stored past reached
    | row more read dispatched _ =>
        rw [more, List.mem_append, List.mem_singleton] at done
        rw [dispatched]
        rcases done with old | new
        · obtain ⟨stored, reached⟩ := (mem_done_iff tracks r).1 old
          obtain ⟨ch, read, member⟩ := dispatches.behind r stored past reached
          exact ⟨ch, read, List.mem_append_left _ member⟩
        · cases numbered_injective new
          exact ⟨_, read, by simp⟩

/-- After `resetFanoutCursor` nothing is behind the cursor and past the mark. -/
theorem dispatches_reset [LSNText] {f : FanOut.State} {mark : Nat}
    (dispatches : Dispatches f mark) :
    Dispatches { f with lastID := f.db.maxID, batch := none } f.db.maxID := by
  obtain ⟨c, tracks⟩ := dispatches.tracks
  exact ⟨FanOut.exists_tracks_reset tracks, le_rfl,
    fun r _ past reached => absurd past (Nat.not_lt.2 reached)⟩

/-- The events of fan-out that leave `change_log` and the checkpoint alone. -/
theorem rows_step [LSNText] {f f' : FanOut.State} {e : FanOut.Event}
    (stepped : FanOut.step f e = some f')
    (other : ∀ lsn xid changes, e ≠ .commit lsn xid changes) :
    f'.db.rows = f.db.rows ∧ f'.db.checkpoint = f.db.checkpoint := by
  cases e with
  | commit lsn xid changes => exact absurd rfl (other lsn xid changes)
  | rollback ids =>
      cases stepped
      exact ⟨rfl, rfl⟩
  | tick | tickFails | stop =>
      simp only [FanOut.step] at stepped
      split at stepped
      · cases stepped
        exact ⟨rfl, rfl⟩
      · cases stepped
  | row =>
      simp only [FanOut.step] at stepped
      split at stepped
      · next r _ _ =>
          cases read : r.readBack <;> rw [read] at stepped <;> cases stepped <;> exact ⟨rfl, rfl⟩
      · cases stepped

/-! ## The invariant -/

/-- The commits that the slot has decoded are in `change_log`, past the mark. -/
structure Decodes (commits : List Commit) (now decoded : LSN) (slot : Option LSN) (db : Database)
    (mark : Nat) : Prop where
  ordered : commits.Pairwise fun m m' => m.lsn < m'.lsn
  reached : ∀ m ∈ commits, m.lsn ≤ now
  passed : decoded ≤ now
  logged : ∀ r ∈ db.rows, r.lsn ≤ decoded
  confirmed : ∀ lsn ∈ db.checkpoint, lsn ≤ decoded
  stored : ∀ start, slot = some start → ∀ m ∈ commits, start < m.lsn → m.lsn ≤ decoded →
    ∀ e ∈ m.entries, ∃ r ∈ db.rows, r.toLogEntry = e ∧ mark < r.id

/-- Every stream is in time for the slot. -/
structure Registered (live : Live.State C) (slot : Option LSN) : Prop where
  valid : Live.AllStreams (fun _ => True) live
  inTime : ∀ start, slot = some start →
    Live.AllStreams (fun inst => start ≤ inst.snapshotLSN) live

structure Sound [LSNText] (s : State C) (mark : Nat) : Prop where
  dispatches : Dispatches s.fan mark
  decodes : Decodes s.commits s.now s.decoded s.slot s.fan.db mark
  registered : Registered s.live s.slot
  dropped : s.phase = .dropped ∨ s.phase = .forgotten → s.slot = none

theorem Sound.noGap [LSNText] {mark : Nat} (sound : Sound s mark) : NoGap s := by
  intro start slot key a held
  obtain ⟨inst, found, early⟩ := sound.registered.inTime start slot key a held
  refine ⟨inst, found, fun m member later e entry _ _ => ?_⟩
  by_cases passed : m.lsn ≤ s.decoded
  · obtain ⟨r, stored, rfl, past⟩ :=
      sound.decodes.stored start slot m member (early.trans_lt later) passed e entry
    by_cases behind : r.id ≤ s.fan.lastID
    · obtain ⟨ch, read, done⟩ := sound.dispatches.behind r stored past behind
      exact .dispatched stored rfl read done
    · exact .waiting stored rfl (Nat.lt_of_not_le behind)
  · have lsn : e.lsn = m.lsn := (logEntries_lsn entry).1
    exact .undecoded (lsn ▸ early.trans_lt later) (lsn ▸ Nat.lt_of_not_le passed)

theorem exists_sound_init [LSNText] (initial : Init s) : ∃ mark, Sound s mark := by
  obtain ⟨c, follows⟩ := FanOut.exists_follows_init initial.fan
  have unread : s.fan.lastID = 0 := initial.fan.1
  refine ⟨0, ⟨⟨c, follows.toTracks⟩, Nat.zero_le _, fun r _ past reached => ?_⟩, ?_, ?_, ?_⟩
  · omega
  · rw [initial.commits, initial.slot, initial.decoded]
    exact ⟨.nil, by simp, le_rfl, initial.logged, initial.confirmed, by simp⟩
  · rw [initial.live, initial.slot]
    exact ⟨by simp [Live.AllStreams], by simp⟩
  · exact fun _ => initial.slot

section Decoding

variable {commits : List Commit} {now decoded : LSN} {slot : Option LSN} {db : Database}
  {mark : Nat}

theorem decodes_rows {db' : Database} (decodes : Decodes commits now decoded slot db mark)
    (rows : db'.rows = db.rows) (checkpoint : ∀ lsn ∈ db'.checkpoint, lsn ∈ db.checkpoint) :
    Decodes commits now decoded slot db' mark where
  ordered := decodes.ordered
  reached := decodes.reached
  passed := decodes.passed
  logged r member := decodes.logged r (rows ▸ member)
  confirmed lsn member := decodes.confirmed lsn (checkpoint lsn member)
  stored start started m member after passed e entry := by
    obtain ⟨r, stored, same⟩ := decodes.stored start started m member after passed e entry
    exact ⟨r, rows ▸ stored, same⟩

theorem decodes_commit (decodes : Decodes commits now decoded slot db mark) {lsn : LSN}
    (later : now < lsn) (xid : Nat) (changes : List StoredChange) :
    Decodes (commits ++ [⟨lsn, xid, changes⟩]) lsn decoded slot db mark where
  ordered := by
    refine List.pairwise_append.2 ⟨decodes.ordered, List.pairwise_singleton _ _, ?_⟩
    intro m member m' new
    cases List.mem_singleton.1 new
    exact (decodes.reached m member).trans_lt later
  reached m member := by
    rcases List.mem_append.1 member with old | new
    · exact (decodes.reached m old).trans later.le
    · cases List.mem_singleton.1 new
      exact le_rfl
  passed := decodes.passed.trans later.le
  logged := decodes.logged
  confirmed := decodes.confirmed
  stored start started m member after passed e entry := by
    rcases List.mem_append.1 member with old | new
    · exact decodes.stored start started m old after passed e entry
    · cases List.mem_singleton.1 new
      exact absurd (passed.trans decodes.passed) (Nat.not_le.2 later)

/-- A new slot has decoded nothing. -/
theorem decodes_create (decodes : Decodes commits now decoded slot db mark) :
    Decodes commits now now (some now) db mark where
  ordered := decodes.ordered
  reached := decodes.reached
  passed := le_rfl
  logged r member := (decodes.logged r member).trans decodes.passed
  confirmed lsn member := (decodes.confirmed lsn member).trans decodes.passed
  stored start started m _ after passed := by
    cases started
    exact absurd passed (Nat.not_le.2 after)

theorem decodes_none (decodes : Decodes commits now decoded slot db mark) (mark' : Nat) :
    Decodes commits now decoded none db mark' :=
  ⟨decodes.ordered, decodes.reached, decodes.passed, decodes.logged, decodes.confirmed, by simp⟩

/-- The first commit past `decoded`: those before it have been decoded. -/
theorem decoded_or_next (decodes : Decodes commits now decoded slot db mark) {m m' : Commit}
    (next : commits.find? (fun m => decoded < m.lsn) = some m) (member : m' ∈ commits)
    (upto : m'.lsn ≤ m.lsn) : m'.lsn ≤ decoded ∨ m' = m := by
  obtain ⟨-, before, after, split, skipped⟩ := List.find?_eq_some_iff_append.1 next
  have ordered := decodes.ordered
  rw [split] at member ordered
  rcases List.mem_append.1 member with early | late
  · left
    simpa using skipped m' early
  · rcases List.mem_cons.1 late with same | later
    · exact .inr same
    · obtain ⟨-, ordered, -⟩ := List.pairwise_append.1 ordered
      exact absurd upto (Nat.not_le.2 ((List.pairwise_cons.1 ordered).1 m' later))

/-- Persisting the next commit puts its changes into `change_log`, past the mark. -/
theorem decodes_decode (decodes : Decodes commits now decoded slot db mark)
    (marked : mark < db.nextID) {m : Commit}
    (next : commits.find? (fun m => decoded < m.lsn) = some m) :
    Decodes commits now m.lsn slot (db.persist m.lsn m.xid m.changes) mark := by
  have ahead : decoded < m.lsn := by simpa using List.find?_some next
  have fresh : ∀ e ∈ db.entries, e.lsn ≠ m.lsn := by
    intro e logged
    obtain ⟨r, stored, rfl⟩ := List.mem_map.1 logged
    exact ((decodes.logged r stored).trans_lt ahead).ne
  have entries : (db.persist m.lsn m.xid m.changes).entries = db.entries ++ m.entries :=
    Database.persist_fresh m.xid m.changes fresh
  obtain ⟨new, rows, ids⟩ := db.rows_persist m.lsn m.xid m.changes
  refine ⟨decodes.ordered, decodes.reached, decodes.reached m (List.mem_of_find?_eq_some next),
    fun r stored => ?_, fun lsn member => ?_, fun start started m' member after upto e entry => ?_⟩
  · have logged : r.toLogEntry ∈ db.entries ++ m.entries := entries ▸ List.mem_map_of_mem stored
    rcases List.mem_append.1 logged with old | new
    · obtain ⟨r', stored', same⟩ := List.mem_map.1 old
      rw [← same]
      exact (decodes.logged r' stored').trans ahead.le
    · exact (logEntries_lsn new).1.le
  · cases member
    exact le_rfl
  · rcases decoded_or_next decodes next member upto with old | rfl
    · obtain ⟨r, stored, same⟩ := decodes.stored start started m' member after old e entry
      exact ⟨r, rows ▸ List.mem_append_left _ stored, same⟩
    · have logged : e ∈ (db.persist m'.lsn m'.xid m'.changes).entries :=
        entries ▸ List.mem_append_right _ entry
      obtain ⟨r, stored, rfl⟩ := List.mem_map.1 logged
      refine ⟨r, stored, rfl, ?_⟩
      rcases List.mem_append.1 (rows ▸ stored) with old | new
      · have lsn : r.lsn = m'.lsn := (logEntries_lsn entry).1
        exact absurd (lsn ▸ decodes.logged r old) (Nat.not_le.2 ahead)
      · exact marked.trans_le (ids r new)

/-- The checkpoint is not past what the slot has decoded. -/
theorem max_checkpoint (decodes : Decodes commits now decoded slot db mark) :
    max decoded (db.checkpoint.getD 0) = decoded := by
  refine max_eq_left ?_
  cases confirmed : db.checkpoint with
  | none => exact Nat.zero_le _
  | some lsn => exact decodes.confirmed lsn confirmed

end Decoding

theorem registered_live {live live' : Live.State C} {slot : Option LSN} {e : Live.Ev C}
    (registered : Registered live slot)
    (fresh : ∀ j c d inst lsn rows, e = .session j → live.clients[j]? = some c →
      c.phase = .loaded d inst lsn rows → ∀ start, slot = some start → start ≤ inst.snapshotLSN)
    (stepped : Live.step u live e = some live') : Registered live' slot where
  valid := Live.allStreams_step registered.valid (fun _ _ _ _ => trivial)
    (fun _ _ _ _ _ _ _ _ _ => trivial) stepped
  inTime start started := by
    refine Live.allStreams_step (registered.inTime start started) ?_ ?_ stepped
    · intro inst inst' evolves early
      rw [evolves.snapshotLSN]
      exact early
    · exact fun j c d inst lsn rows event found phase =>
        fresh j c d inst lsn rows event found phase start started

theorem registered_create (registered : Registered s.live s.slot)
    (inTime : InTime s .createSlot = true) : Registered s.live (some s.now) where
  valid := registered.valid
  inTime start started key a held := by
    cases started
    obtain ⟨inst, found, -⟩ := registered.valid key a held
    have early := (KeyMap.all_iff s.live.streams _).1 inTime key a held
    simp only [found, Option.all_some, decide_eq_true_eq] at early
    exact ⟨inst, found, early⟩

theorem inTime_store {j : Nat} (inTime : InTime s (.live (.session j)) = true)
    {c : Live.Client C} {d : Definition C} {inst : Instance C} {lsn : LSN} {rows : List Row}
    (found : s.live.clients[j]? = some c) (phase : c.phase = .loaded d inst lsn rows) {start : LSN}
    (slot : s.slot = some start) : start ≤ inst.snapshotLSN := by
  simpa [InTime, found, phase, slot] using inTime

theorem sound_dispatch [LSNText] {mark : Nat} (sound : Sound s mark) {order : List String}
    {listed : List Nat} {live : Live.State C} {fan : FanOut.State}
    (stepped : Live.dispatchRow u s.live s.fan order listed = some (live, fan)) :
    Sound { s with live := live, fan := fan } mark := by
  obtain ⟨-, row, moved⟩ := Live.dispatchRow_spec stepped
  obtain ⟨rows, checkpoint⟩ := rows_step row (by simp)
  have dispatches := dispatches_step sound.dispatches row
  have decodes := decodes_rows sound.decodes rows (by simp [checkpoint])
  rcases moved with rfl | ⟨ch, copied⟩
  · exact ⟨dispatches, decodes, sound.registered, sound.dropped⟩
  · exact ⟨dispatches, decodes, registered_live sound.registered (by simp) copied, sound.dropped⟩

theorem exists_sound_step [LSNText] {e : Ev C} (sound : ∃ mark, Sound s mark)
    (inTime : InTime s e = true)
    (stepped : step u s e = some t) : ∃ mark, Sound t mark := by
  obtain ⟨mark, sound⟩ := sound
  obtain ⟨dispatches, decodes, registered, dropped⟩ := sound
  cases e with
  | commit lsn xid changes =>
      simp only [step] at stepped
      split at stepped
      · next ahead =>
          cases stepped
          exact ⟨mark, dispatches, decodes_commit decodes ahead.1 xid changes, registered, dropped⟩
      · cases stepped
  | live e =>
      simp only [step] at stepped
      split at stepped
      · obtain ⟨live, moved, rfl⟩ := Option.map_eq_some_iff.1 stepped
        refine ⟨mark, dispatches, decodes, registered_live registered ?_ moved, dropped⟩
        rintro j c d inst lsn rows rfl found phase start slot
        exact inTime_store inTime found phase slot
      · cases stepped
  | createSlot =>
      simp only [step] at stepped
      split at stepped
      · cases stepped
        exact ⟨mark, dispatches, decodes_create decodes,
          registered_create (s := s) registered inTime, by simp⟩
      · cases stepped
  | startConsumer =>
      simp only [step] at stepped
      split at stepped
      · cases stepped
        rw [max_checkpoint decodes]
        exact ⟨mark, dispatches, decodes, registered, by simp⟩
      · cases stepped
  | decode =>
      simp only [step] at stepped
      split at stepped
      · next next =>
          obtain ⟨fan, persisted, rfl⟩ := Option.map_eq_some_iff.1 stepped
          have dispatches' := dispatches_step dispatches persisted
          simp only [FanOut.step] at persisted
          split at persisted
          · cases persisted
            exact ⟨mark, dispatches', decodes_decode decodes dispatches.mark_lt next, registered,
              dropped⟩
          · cases persisted
      · cases stepped
  | fan e =>
      simp only [step] at stepped
      split at stepped
      · next ticks =>
          obtain ⟨fan, moved, rfl⟩ := Option.map_eq_some_iff.1 stepped
          have other : ∀ lsn xid changes, e ≠ .commit lsn xid changes := by
            rintro lsn xid changes rfl
            cases ticks
          obtain ⟨rows, checkpoint⟩ := rows_step moved other
          exact ⟨mark, dispatches_step dispatches moved,
            decodes_rows decodes rows (by simp [checkpoint]), registered, dropped⟩
      · cases stepped
  | dispatch order listed =>
      simp only [step] at stepped
      split at stepped
      · obtain ⟨⟨live, fan⟩, moved, rfl⟩ := Option.map_eq_some_iff.1 stepped
        exact ⟨mark, sound_dispatch ⟨dispatches, decodes, registered, dropped⟩ moved⟩
      · cases stepped
  | lag listed =>
      simp only [step] at stepped
      split at stepped
      · obtain ⟨live, moved, rfl⟩ := Option.map_eq_some_iff.1 stepped
        exact ⟨mark, dispatches, decodes, registered_live registered (by simp) moved, by simp⟩
      · cases stepped
  | dropSlot =>
      simp only [step] at stepped
      split at stepped
      · cases stepped
        exact ⟨mark, dispatches, decodes_none decodes mark, ⟨registered.valid, by simp⟩, by simp⟩
      · cases stepped
  | deleteCheckpoint =>
      simp only [step] at stepped
      split at stepped
      · next phase =>
          cases stepped
          obtain ⟨c, tracks⟩ := dispatches.tracks
          have mirrors : FanOut.Mirrors { s.fan.db with checkpoint := none } c :=
            ⟨tracks.db.rows, tracks.db.next, tracks.db.parses⟩
          exact ⟨mark, ⟨⟨c, mirrors, tracks.last, tracks.batch⟩, dispatches.marked,
            dispatches.behind⟩, decodes_rows decodes rfl (by simp), registered,
            fun _ => dropped (.inl phase)⟩
      · cases stepped
  | resetCursor =>
      simp only [step] at stepped
      split at stepped
      · next phase =>
          cases stepped
          have gone : s.slot = none := dropped (.inr phase)
          refine ⟨s.fan.db.maxID, dispatches_reset dispatches, ?_, registered, by simp⟩
          rw [gone]
          exact decodes_none decodes _
      · cases stepped

/-- **No commit is lost around a slot that starts no later than the snapshots.** -/
theorem noGap_of_inTime [LSNText] {s : State C} (initial : (machine u).init s) {es : List (Ev C)}
    (inTime : (machine u).Meets (fun s e => InTime s e = true) s es) :
    (machine u).Along NoGap s es :=
  Machine.along_of_meets (I := fun s => ∃ mark, Sound s mark)
    (fun _ ⟨_, sound⟩ => sound.noGap)
    (fun _ _ _ sound here stepped => exists_sound_step sound here stepped)
    (exists_sound_init initial) inTime

namespace Lagged

attribute [local instance] Wal.Pglogrepl.hexadecimal

open Live.Tasks

def start : State Unit := { fan := { db := .empty }, now := 10, decoded := 10 }

/-- The first slot and a subscription; a second task is dispatched, and a third is not yet
decoded when the lag guard trips.  The session is told and the streams are forgotten. -/
def forgotten : List (Ev Unit) :=
  List.flatten [[.createSlot, .startConsumer], subscribed.map .live,
    [.commit 20 700 [stored 2], .decode, .fan .tick, .dispatch [streamKey "tasks" ""] [0]],
    List.replicate 7 (.live .run), [.fan .stop, .commit 25 701 [stored 3], .lag [0]],
    List.replicate 2 (.live .run)]

/-- The rest of the recovery. -/
def recreated : List (Ev Unit) :=
  [.dropSlot, .deleteCheckpoint, .resetCursor, .createSlot, .startConsumer]

/-- The session subscribes again, with three tasks in the table. -/
def resubscribed : List (Ev Unit) :=
  [.subscribe 0 ["tasks"] none, .session 0, .session 0, .take 0 25 [task 1, task 2, task 3]].map
      .live ++
    List.replicate 5 (.live (.session 0))

theorem init_start : (machine setup).init start :=
  ⟨rfl, ⟨rfl, rfl, rfl, by decide, fun r => nofun⟩, fun r => nofun, fun lsn => nofun, rfl, rfl, rfl,
    rfl⟩

/-- The session waits for the new slot. -/
theorem noGap_of_inTime_recovered :
    ∃ s, (machine setup).run start (forgotten ++ recreated ++ resubscribed ++
        [.commit 30 702 [stored 4]]) = some s ∧
      s.slot = some 25 ∧ s.live.streams.lookup (streamKey "tasks" "") = some 1 ∧
      s.fan.dispatched.map Prod.fst = [1] ∧ NoGap s := by
  have replay : ((machine setup).run start (forgotten ++ recreated ++ resubscribed ++
      [.commit 30 702 [stored 4]])).map (fun s =>
        (s.slot, s.live.streams.lookup (streamKey "tasks" ""), s.fan.dispatched.map Prod.fst)) =
      some (some 25, some 1, [1]) := by
    decide +kernel
  obtain ⟨s, ran, seen⟩ := Option.map_eq_some_iff.1 replay
  simp only [Prod.mk.injEq] at seen
  obtain ⟨slot, stream, ids⟩ := seen
  exact ⟨s, ran, slot, stream, ids, (noGap_of_inTime init_start (by decide +kernel)).last ran⟩

def subscriber : Live.Note Unit → Option (Nat × Nat)
  | .subscribed j a _ => some (j, a)
  | _ => none

/-- The session does as it was told, at once. -/
def lost : List (Ev Unit) :=
  forgotten ++ resubscribed ++ [.commit 30 702 [stored 4]] ++ recreated

/-- What is committed between the snapshot and the new slot is not in `change_log`, and the
new slot will not decode it. -/
theorem commit_lost :
    ∃ s, (machine setup).run start lost = some s ∧ s.slot = some 30 ∧
      s.live.streams.lookup (streamKey "tasks" "") = some 1 ∧
      (s.live.heap.map fun inst => inst.snapshotLSN) = [10, 25] ∧
      (s.fan.db.rows.map fun r => r.lsn) = [20] ∧ ¬ NoGap s := by
  have replay : ((machine setup).run start lost).map (fun s =>
      (s.slot, s.live.streams.lookup (streamKey "tasks" ""), s.fan.db.rows.map (fun r => r.lsn),
        s.live.heap.map fun inst => inst.snapshotLSN)) =
      some (some 30, some 1, [20], [10, 25]) := by
    decide +kernel
  have latest : ((machine setup).run start lost).map (fun s =>
      (s.commits.getLast?, s.live.trace.getLast?.bind subscriber,
        s.live.heap.all fun inst => inst.defn.schema = "public" ∧ inst.defn.table = "tasks")) =
      some (some ⟨30, 702, [stored 4]⟩, some (0, 1), true) := by
    decide +kernel
  obtain ⟨s, ran, seen⟩ := Option.map_eq_some_iff.1 replay
  rw [ran] at latest
  simp only [Option.map_some, Option.some.injEq, Prod.mk.injEq] at seen latest
  obtain ⟨slot, stream, rows, gates⟩ := seen
  obtain ⟨last, noted, tables⟩ := latest
  refine ⟨s, ran, slot, stream, gates, rows, fun noGap => ?_⟩
  obtain ⟨inst, found, accounted⟩ := noGap 30 slot _ 1 stream
  have gate : inst.snapshotLSN = 25 := by
    have mapped := congrArg (fun l => l[1]?) gates
    simpa [found] using mapped
  have table : inst.defn.schema = "public" ∧ inst.defn.table = "tasks" := by
    simpa using List.all_eq_true.1 tables inst (List.mem_of_getElem? found)
  have unlogged : ∀ r ∈ s.fan.db.rows, r.toLogEntry ≠ ⟨30, 702, 0, stored 4⟩ := by
    intro r stored same
    have lsn : r.lsn ∈ [20] := rows ▸ List.mem_map_of_mem (f := fun r => r.lsn) stored
    rw [same] at lsn
    revert lsn
    decide
  have fate := accounted ⟨30, 702, [stored 4]⟩ (List.mem_of_getLast? last)
    (by rw [gate]; decide) ⟨30, 702, 0, stored 4⟩ (by simp [Commit.entries, logEntries])
    table.1.symm table.2.symm
  cases fate with
  | dispatched stored same _ _ => exact unlogged _ stored same
  | waiting stored same _ => exact unlogged _ stored same
  | undecoded after _ => exact absurd after (by decide)
  | resnapshot told =>
      obtain ⟨n, final, subscribed⟩ := Option.bind_eq_some_iff.1 noted
      obtain ⟨before, trace⟩ := List.getLast?_eq_some_iff.1 final
      cases n with
      | subscribed j a halted =>
          cases subscribed
          exact absurd (told.2 before 0 halted [] trace) (by simp)
      | _ => cases subscribed

end Lagged

end Tether.Recovery
