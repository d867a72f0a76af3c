/-
# Tether.Engine.FanOut — the ticks that hand `change_log` to `dispatchChange`

The consumer commits batches of rows to `change_log` while the ticks of one `Run`
call read them: a tick queries the rows past `lastID`, and for each of them sets
`lastID`, decodes the row and passes the change to `dispatchChange`.  A tick may
fail before its query, at any row and after the last one.

The state carries the changes dispatched so far.  Its `change_log`, cursor and open
result set are a `Cursor` (`Follows`), whose operations know that exactly the rows
up to `lastID` have been handled.
-/
import Tether.Lib.Cursor
import Tether.Lib.Lists
import Tether.Lib.Machine
import Tether.Wal.RoundTrip

namespace Tether.FanOut

open Tether.Lib Tether.Wal

set_option autoImplicit false

/-- `batch` is the open result set of a tick; `dispatched` is a ghost, what
`dispatchChange` was called with, each change with the id of its row. -/
structure State where
  db : Database
  lastID : Nat := 0
  batch : Option (List LogRow) := none
  dispatched : List (Nat × Change) := []

inductive Event where
  /-- The consumer's durable transaction. -/
  | commit (lsn : LSN) (xid : Nat) (changes : List StoredChange)
  /-- A durable transaction that fails: the ids it drew are used up. -/
  | rollback (ids : Nat)
  /-- A tick's query succeeds. -/
  | tick
  /-- A tick finds the pool closed, or its query fails. -/
  | tickFails
  /-- `rows.Next` and `rows.Scan` succeed. -/
  | row
  /-- `rows.Next` reports the end or an error, or `rows.Scan` fails. -/
  | stop
  deriving DecidableEq

def step [LSNText] (s : State) : Event → Option State
  | .commit lsn xid changes =>
      if lsn < 2 ^ 64 then some { s with db := s.db.persist lsn xid changes } else none
  | .rollback ids => some { s with db := s.db.burn ids }
  | .tick =>
      match s.batch with
      | none => some { s with batch := some (s.db.rows.filter fun r => s.lastID < r.id) }
      | some _ => none
  | .tickFails => if s.batch = none then some s else none
  | .row =>
      match s.batch with
      | some (r :: rest) =>
          some <|
            match r.readBack with
            | some ch =>
                { s with
                  lastID := r.id
                  batch := some rest
                  dispatched := s.dispatched ++ [(r.id, ch)] }
            -- the position does not parse: the row is behind the cursor, undispatched
            | none => { s with lastID := r.id, batch := none }
      | _ => none
  | .stop => if s.batch.isSome then some { s with batch := none } else none

/-- `Run` starts at `lastID = 0` with whatever `change_log` holds. -/
def machine [LSNText] : Machine State Event where
  init s := s.lastID = 0 ∧ s.batch = none ∧ s.dispatched = [] ∧ 0 < s.db.nextID ∧
    ∀ r ∈ s.db.rows, 0 < r.id ∧ r.lsn < 2 ^ 64
  step := step

/-- What was dispatched is `change_log` up to `lastID`: decoded, in the order of the
ids, each row once and none left out. -/
structure State.Exactly [LSNText] (s : State) : Prop where
  inOrder : (s.db.rows.filter fun r => r.id ≤ s.lastID).mapM
    (fun r => r.readBack.map fun ch => (r.id, ch)) = some s.dispatched
  once : s.dispatched.Pairwise fun d d' => d.1 < d'.1
  complete : ∀ r ∈ s.db.rows, r.id ≤ s.lastID →
    ∃ ch, r.readBack = some ch ∧ (r.id, ch) ∈ s.dispatched

/-! ## The cursor behind a state -/

def numbered (r : LogRow) : Nat × LogEntry := (r.id, r.toLogEntry)

/-- `c` has the rows of `change_log`; it may not know of ids that were used up. -/
structure Mirrors (db : Database) (c : Cursor LogEntry) : Prop where
  rows : c.rows = db.rows.map numbered
  next : c.nextID ≤ db.nextID
  parses : ∀ r ∈ db.rows, r.lsn < 2 ^ 64

/-- `c` stands where fan-out stands. -/
structure Tracks (s : State) (c : Cursor LogEntry) : Prop where
  db : Mirrors s.db c
  last : c.lastID = s.lastID
  batch : c.batch = (s.batch.getD []).map numbered

/-- What is behind the cursor has been dispatched. -/
structure Follows [LSNText] (s : State) (c : Cursor LogEntry) : Prop extends Tracks s c where
  done : List.Forall₂ (fun row d => d.1 = row.1 ∧ row.2.readBack = some d.2) c.done s.dispatched

/-- `c'` is `c` with more rows in its log. -/
structure Grown (c c' : Cursor LogEntry) : Prop where
  last : c'.lastID = c.lastID
  batch : c'.batch = c.batch
  done : c'.done = c.done

theorem Grown.tracks {s : State} {c c' : Cursor LogEntry} (grown : Grown c c')
    (tracks : Tracks s c) {db : Database} (mirrors : Mirrors db c') :
    Tracks { s with db := db } c' :=
  ⟨mirrors, grown.last.trans tracks.last, grown.batch.trans tracks.batch⟩

theorem exists_grown_insertRow {db : Database} {c : Cursor LogEntry} (mirrors : Mirrors db c)
    {e : LogEntry} (parses : e.lsn < 2 ^ 64) :
    ∃ c', Grown c c' ∧ Mirrors (db.insertRow e) c' := by
  unfold Database.insertRow
  split
  · exact ⟨c, ⟨rfl, rfl, rfl⟩, mirrors.rows, mirrors.next.trans (Nat.le_succ _), mirrors.parses⟩
  · refine ⟨c.append (db.nextID - c.nextID) [e], ⟨rfl, rfl, rfl⟩, ?_, ?_, ?_⟩
    · have number : c.nextID + (db.nextID - c.nextID) = db.nextID := by
        have := mirrors.next
        omega
      simp [Cursor.append, Cursor.number, number, mirrors.rows, Database.insert, numbered]
    · have := mirrors.next
      show c.nextID + (db.nextID - c.nextID) + 1 ≤ db.nextID + 1
      omega
    · intro r member
      rcases List.mem_append.1 member with old | new
      · exact mirrors.parses r old
      · cases List.mem_singleton.1 new
        exact parses

theorem exists_grown_persist {db : Database} {c : Cursor LogEntry} (mirrors : Mirrors db c)
    {lsn : LSN} (parses : lsn < 2 ^ 64) (xid : Nat) (changes : List StoredChange) :
    ∃ c', Grown c c' ∧ Mirrors (db.persist lsn xid changes) c' := by
  have rows : ∀ es : List LogEntry, (∀ e ∈ es, e.lsn < 2 ^ 64) →
      ∀ {db : Database} {c : Cursor LogEntry}, Mirrors db c →
        ∃ c', Grown c c' ∧ Mirrors (es.foldl Database.insertRow db) c' := by
    intro es
    induction es with
    | nil => exact fun _ _ c mirrors => ⟨c, ⟨rfl, rfl, rfl⟩, mirrors⟩
    | cons e es ih =>
        intro parse db c mirrors
        obtain ⟨c', grown, mirrors'⟩ := exists_grown_insertRow mirrors (parse e List.mem_cons_self)
        obtain ⟨c'', grown', mirrors''⟩ :=
          ih (fun e' member => parse e' (List.mem_cons_of_mem _ member)) mirrors'
        exact ⟨c'', ⟨grown'.last.trans grown.last, grown'.batch.trans grown.batch,
          grown'.done.trans grown.done⟩, mirrors''⟩
  obtain ⟨c', grown, mirrors'⟩ :=
    rows (logEntries lsn xid 0 changes) (fun e member => (logEntries_lsn member).1 ▸ parses) mirrors
  exact ⟨c', grown, mirrors'.rows, mirrors'.next, mirrors'.parses⟩

theorem exists_follows_init [LSNText] {s : State} (initial : machine.init s) :
    ∃ c, Follows s c := by
  obtain ⟨last, batch, nothing, started, rows⟩ := initial
  refine ⟨Cursor.ofRows (s.db.rows.map numbered) s.db.nextID ?_ started ?_ ?_,
    ⟨⟨rfl, le_rfl, fun r member => (rows r member).2⟩, last.symm, ?_⟩, ?_⟩
  · intro row member
    obtain ⟨r, stored, rfl⟩ := List.mem_map.1 member
    exact s.db.below r stored
  · exact List.pairwise_map.2 s.db.ordered
  · intro row member
    obtain ⟨r, stored, rfl⟩ := List.mem_map.1 member
    exact (rows r stored).1
  · rw [batch]
    rfl
  · rw [nothing]
    exact .nil

theorem tracks_tick {s : State} {c : Cursor LogEntry} (tracks : Tracks s c) :
    Tracks { s with batch := some (s.db.rows.filter fun r => s.lastID < r.id) } c.read := by
  refine ⟨⟨tracks.db.rows, tracks.db.next, tracks.db.parses⟩, tracks.last, ?_⟩
  show c.rows.filter (fun row => c.lastID < row.1) = _
  rw [tracks.db.rows, tracks.last, List.filter_map]
  rfl

theorem tracks_stop {s : State} {c : Cursor LogEntry} (tracks : Tracks s c) :
    Tracks { s with batch := none } c.abort :=
  ⟨⟨tracks.db.rows, tracks.db.next, tracks.db.parses⟩, tracks.last, rfl⟩

/-- `resetFanoutCursor` leaves nothing to read. -/
theorem exists_tracks_reset {s : State} {c : Cursor LogEntry} (tracks : Tracks s c) :
    ∃ c', Tracks { s with lastID := s.db.maxID, batch := none } c' := by
  have rows : ∀ r ∈ s.db.rows, numbered r ∈ c.rows := fun r member =>
    tracks.db.rows ▸ List.mem_map_of_mem member
  have all : ∀ row ∈ c.rows, row.1 ≤ s.db.maxID := by
    intro row member
    rw [tracks.db.rows] at member
    obtain ⟨r, stored, rfl⟩ := List.mem_map.1 member
    exact s.db.le_maxID stored
  have below : s.db.maxID < c.nextID :=
    s.db.maxID_lt ((Nat.zero_le _).trans_lt c.started) fun r member => c.below _ (rows r member)
  exact ⟨c.skip _ all below, ⟨tracks.db.rows, tracks.db.next, tracks.db.parses⟩, rfl, rfl⟩

/-- The positions that `persist` writes parse, so no row is passed over. -/
theorem exists_tracks_row [LSNText] {s : State} {c : Cursor LogEntry} (tracks : Tracks s c)
    {r : LogRow} {rest : List LogRow} (reading : s.batch = some (r :: rest)) :
    s.lastID < r.id ∧ ∃ ch, r.readBack = some ch ∧ ∃ c', c'.done = c.done ++ [numbered r] ∧
      Tracks { s with
        lastID := r.id
        batch := some rest
        dispatched := s.dispatched ++ [(r.id, ch)] } c' := by
  have batch : c.batch = numbered r :: rest.map numbered := by rw [tracks.batch, reading]; rfl
  obtain ⟨later, rows, -, ahead, -, front⟩ := c.split
  have next : numbered r ∈ later := front.subset (batch ▸ List.mem_cons_self)
  have stored : r ∈ s.db.rows := by
    have member : numbered r ∈ c.rows := rows ▸ List.mem_append_right _ next
    rw [tracks.db.rows] at member
    obtain ⟨r', stored, same⟩ := List.mem_map.1 member
    obtain ⟨entry, id⟩ := r
    obtain ⟨entry', id'⟩ := r'
    cases same
    exact stored
  obtain ⟨ch, read⟩ : ∃ ch, r.readBack = some ch := by
    rw [LogEntry.readBack, LSNText.parse_string (tracks.db.parses r stored)]
    exact ⟨_, rfl⟩
  refine ⟨tracks.last ▸ ahead _ next, ch, read, ?_⟩
  exact ⟨c.advance (numbered r) (rest.map numbered) batch, rfl,
    ⟨tracks.db.rows, tracks.db.next, tracks.db.parses⟩, rfl, rfl⟩

/-- What a step has put behind the cursor, it has dispatched. -/
inductive Passes [LSNText] (s t : State) (c c' : Cursor LogEntry) : Prop where
  | nothing : c'.done = c.done → t.dispatched = s.dispatched → t.lastID = s.lastID →
      Passes s t c c'
  | row {r : LogRow} {ch : Change} : c'.done = c.done ++ [numbered r] → r.readBack = some ch →
      t.dispatched = s.dispatched ++ [(r.id, ch)] → s.lastID ≤ t.lastID → Passes s t c c'

theorem exists_tracks_step [LSNText] {s t : State} {e : Event} {c : Cursor LogEntry}
    (tracks : Tracks s c)
    (stepped : step s e = some t) : ∃ c', Tracks t c' ∧ Passes s t c c' := by
  cases e with
  | commit lsn xid changes =>
      simp only [step] at stepped
      split at stepped
      · cases stepped
        next parses =>
          obtain ⟨c', grown, mirrors⟩ := exists_grown_persist tracks.db parses xid changes
          exact ⟨c', grown.tracks tracks mirrors, .nothing grown.done rfl rfl⟩
      · cases stepped
  | rollback ids =>
      cases stepped
      exact ⟨c, ⟨⟨tracks.db.rows, tracks.db.next.trans (Nat.le_add_right _ _),
        tracks.db.parses⟩, tracks.last, tracks.batch⟩, .nothing rfl rfl rfl⟩
  | tick =>
      simp only [step] at stepped
      split at stepped
      · cases stepped
        exact ⟨_, tracks_tick tracks, .nothing rfl rfl rfl⟩
      · cases stepped
  | tickFails =>
      simp only [step] at stepped
      split at stepped
      · cases stepped
        exact ⟨c, tracks, .nothing rfl rfl rfl⟩
      · cases stepped
  | row =>
      simp only [step] at stepped
      split at stepped
      · next r rest reading =>
          obtain ⟨onward, ch, read, c', done, moved⟩ := exists_tracks_row tracks reading
          simp only [read] at stepped
          cases stepped
          exact ⟨c', moved, .row done read rfl onward.le⟩
      · cases stepped
  | stop =>
      simp only [step] at stepped
      split at stepped
      · cases stepped
        exact ⟨_, tracks_stop tracks, .nothing rfl rfl rfl⟩
      · cases stepped

theorem exists_follows_step [LSNText] {s t : State} {e : Event} (follows : ∃ c, Follows s c)
    (stepped : step s e = some t) : ∃ c, Follows t c := by
  obtain ⟨c, follows⟩ := follows
  obtain ⟨c', tracks, passes⟩ := exists_tracks_step follows.toTracks stepped
  refine ⟨c', tracks, ?_⟩
  cases passes with
  | nothing done dispatched _ =>
      rw [done, dispatched]
      exact follows.done
  | row done read dispatched _ =>
      rw [done, dispatched]
      exact List.rel_append follows.done (.cons ⟨rfl, read⟩ .nil)

/-! ## Every change exactly once -/

theorem Follows.exactly [LSNText] {s : State} {c : Cursor LogEntry} (follows : Follows s c) :
    s.Exactly := by
  have handled : List.Forall₂ (fun r d => d.1 = r.id ∧ r.readBack = some d.2)
      (s.db.rows.filter fun r => r.id ≤ s.lastID) s.dispatched := by
    have done := follows.done
    rwa [c.done_eq_filter, follows.db.rows, follows.last, List.filter_map,
      List.forall₂_map_left_iff] at done
  have ids : s.dispatched.map Prod.fst =
      (s.db.rows.filter fun r => r.id ≤ s.lastID).map LogRow.id := by
    refine List.forall₂_eq_eq_eq ▸ List.forall₂_map_left_iff.2 (List.forall₂_map_right_iff.2 ?_)
    exact handled.flip.imp fun d r both => both.1
  refine ⟨mapM_eq_some_iff.2 (handled.imp fun r d both => ?_), ?_, ?_⟩
  · rw [both.2, Option.map_some, ← both.1]
  · refine List.pairwise_map.1 ?_
    rw [ids]
    exact List.pairwise_map.2 (s.db.ordered.filter _)
  · intro r stored behind
    obtain ⟨d, passed, same, read⟩ :=
      exists_mem_of_forall₂ handled (List.mem_filter.2 ⟨stored, decide_eq_true behind⟩)
    exact ⟨d.2, read, same ▸ passed⟩

/-- **Fan-out dispatches every persisted change exactly once, in order.** -/
theorem dispatched_exactly [LSNText] {s : State} (reached : machine.Reachable s) : s.Exactly := by
  obtain ⟨c, follows⟩ := Machine.reachable_induction (P := fun s => ∃ c, Follows s c)
    (fun s initial => exists_follows_init initial)
    (fun s e t follows stepped => exists_follows_step follows stepped) reached
  exact follows.exactly

namespace Interrupted

attribute [local instance] Wal.Pglogrepl.hexadecimal

def task (id : Int64) : StoredChange :=
  ⟨"public", "tasks", "insert", "v1", none, some (KeyMap.ofList [("id", .integer id)])⟩

/-- The first tick stops after one of its two rows, a durable transaction that drew
two ids fails, and the second tick reads on. -/
def schedule : List Event :=
  [.commit 40 700 [task 1, task 2], .tick, .row, .rollback 2, .commit 50 701 [task 3], .stop,
    .tickFails, .tick, .row, .row]

theorem dispatched_exactly_interrupted :
    ∃ s, machine.Reachable s ∧ s.dispatched.map Prod.fst = [1, 2, 5] ∧ s.Exactly := by
  have replay : (machine.run { db := .empty } schedule).map (fun s =>
      s.dispatched.map Prod.fst) = some [1, 2, 5] := by
    decide +kernel
  obtain ⟨s, ran, ids⟩ := Option.map_eq_some_iff.1 replay
  have initial : machine.init { db := .empty } :=
    ⟨rfl, rfl, rfl, by decide, fun r member => nomatch member⟩
  have reached : machine.Reachable s := (Machine.Reachable.init initial).run ran
  exact ⟨s, reached, ids, dispatched_exactly reached⟩

end Interrupted

end Tether.FanOut
