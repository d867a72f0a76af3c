/-
# Tether.Engine.Subscribe — one subscription beside one live stream

A session subscribes to a shape whose stream is already registered while fan-out
dispatches changes to that stream.  Both are cut into the steps between which the
source holds no lock:

* the session reads `Log.LastOffset`, then `Materialized`, enqueues the snapshot and
  calls `addShape`; or it reads `Log.After`, enqueues each replayed event and calls
  `addShape`;
* fan-out copies the session list, writes the cache, appends to the log, tests
  `hasShape` and enqueues.

`marks` is a ghost that remembers the cache at each offset of the log.  The session
gets `o + 1, o + 2, …` with nothing missing or repeated in every run that is
`Orderly`; `missed_update` is a run that is not.
-/
import Tether.Engine.Dispatch
import Tether.Lib.Machine

namespace Tether

open Lib Wal Shape Transport

set_option autoImplicit false

variable {C : Type}

/-- `Apply` up to its cache write; the append is `Instance.appendLog`. -/
def Shape.Instance.applyBegin (inst : Instance C) (ch : Change) :
    Instance C × Except ShapeError (Option Move) :=
  match inst.log.halted with
  | some cause => (inst, .error (.halted cause))
  | none =>
      if !tableMatch inst.defn ch then (inst, .ok none)
      else if inst.skips ch then (inst, .ok none)
      else
        match inst.checkFingerprint ch.relationFingerprint with
        | .error err => ({ inst with log := inst.log.halt err }, .error err)
        | .ok inst =>
            match inst.project ch with
            | .error err => (inst, .error err)
            | .ok none => (inst, .ok none)
            | .ok (some m) => (inst.writeCache m, .ok (some m))

/-- The two halves are `Apply`. -/
theorem Shape.Instance.apply_eq_begin (inst : Instance C) (ch : Change) :
    inst.apply ch =
      match inst.applyBegin ch with
      | (inst, .error err) => (inst, .error err)
      | (inst, .ok none) => (inst, .ok [])
      | (inst, .ok (some m)) => inst.appendLog m := by
  unfold apply applyBegin
  cases inst.log.halted with
  | some cause => rfl
  | none =>
      dsimp only
      split_ifs
      · rfl
      · rfl
      · cases inst.checkFingerprint ch.relationFingerprint with
        | error err => rfl
        | ok inst' =>
            dsimp only
            rcases inst'.project ch with err | (_ | m) <;> rfl

/-- The first half writes the cache for a move, or leaves cache and events alone. -/
theorem Shape.Instance.applyBegin_cases (inst : Instance C) (ch : Change) :
    (∃ fp log, (inst.applyBegin ch).1 = { inst with fingerprint := fp, log := log } ∧
        log.events = inst.log.events ∧ (inst.log.halted.isSome → log.halted.isSome) ∧
        ∀ m, (inst.applyBegin ch).2 ≠ .ok (some m)) ∨
      ∃ fp m, inst.applyBegin ch =
          ({ inst with fingerprint := fp, cache := m.cache inst.cache }, .ok (some m)) ∧
        inst.log.halted = none ∧ inst.project ch = .ok (some m) := by
  unfold applyBegin
  cases live : inst.log.halted with
  | some cause => exact .inl ⟨inst.fingerprint, inst.log, rfl, rfl, by simp [live], by simp⟩
  | none =>
      dsimp only
      split_ifs
      · exact .inl ⟨inst.fingerprint, inst.log, rfl, rfl, by simp, by simp⟩
      · exact .inl ⟨inst.fingerprint, inst.log, rfl, rfl, by simp, by simp⟩
      · cases checked : inst.checkFingerprint ch.relationFingerprint with
        | error err =>
            exact .inl ⟨inst.fingerprint, inst.log.halt err, rfl, rfl, by simp, by simp⟩
        | ok inst' =>
            obtain ⟨fp, rfl⟩ := checkFingerprint_ok checked
            -- `project` reads neither the fingerprint nor the log
            have same : ({ inst with fingerprint := fp } : Instance C).project ch =
                inst.project ch := rfl
            dsimp only
            rw [same]
            rcases decided : inst.project ch with err | (_ | m)
            · exact .inl ⟨fp, inst.log, rfl, rfl, by simp, by simp⟩
            · exact .inl ⟨fp, inst.log, rfl, rfl, by simp, by simp⟩
            · exact .inr ⟨fp, m, rfl, rfl, rfl⟩

namespace Subscribe

/-- Where the fan-out goroutine is; `listed` says that the session was in the list
it copied. -/
inductive Work where
  | idle
  | copied (ch : Change) (listed : Bool)
  | cached (m : Move) (listed : Bool)
  | applied (ev : Event) (listed : Bool)
  | due (ev : Event)
  | refused (err : ShapeError) (listed : Bool)

/-- Where the session's goroutine is: `start` is the offset the subscription starts
at, `upTo` the log's last offset when it was read. -/
inductive Sub where
  | idle
  | offset (start : Int)
  | rows (start : Int) (rows : Multiset Row)
  | replay (start upTo : Int) (events : List Event)
  | served (start upTo : Int)
  | subscribed (start upTo : Int)
  /-- The client was too slow, or its snapshot cannot be marshalled. -/
  | failed
  /-- The stream is about to be replaced by a new one. -/
  | resnapshot

/-- The start and the last offset read, once the log has been read. -/
def Sub.read : Sub → Option (Int × Int)
  | .offset start | .rows start _ => some (start, start)
  | .replay start upTo _ | .served start upTo | .subscribed start upTo => some (start, upTo)
  | .idle | .failed | .resnapshot => none

structure Setup (C : Type) where
  inst : Instance C
  name : String
  key : String
  /-- The resume offset from the client's hello, 0 if there is none. -/
  resumeAt : Int
  bufSize : Int
  /-- What `json.Marshal` makes of the values that the model leaves open. -/
  exotic : Value → Option Json

structure State (C : Type) where
  inst : Instance C
  conn : Conn Sent
  connected : Bool := false
  member : Bool := false
  work : Work := .idle
  sub : Sub := .idle
  marks : KeyMap Int (KeyMap String Row)

/-- `fanOut` and `session` let the two goroutines take their next step. -/
inductive Ev where
  | connect
  /-- Fan-out turns to the next change and copies the session list. -/
  | copy (ch : Change)
  | fanOut
  | session
  | pump

def codeMustResnapshot : String := "must_resnapshot"

/-- `enqueueChange`, and `disconnect` if it fails. -/
def deliverChange (u : Setup C) (conn : Conn Sent) (ev : Event) : Conn Sent × Bool :=
  match enqueueChange u.exotic conn u.key u.name ev with
  | (conn, true) => (conn, true)
  | (conn, false) => (conn.sendBye reasonSlowClient, false)

/-- The next step of `dispatchChange`. -/
def fanOutStep (u : Setup C) (s : State C) : Option (State C) :=
  match s.work with
  | .idle => none
  | .copied ch listed =>
      match s.inst.applyBegin ch with
      | (inst, .error err) => some { s with inst := inst, work := .refused err listed }
      | (inst, .ok none) => some { s with inst := inst, work := .idle }
      | (inst, .ok (some m)) => some { s with inst := inst, work := .cached m listed }
  | .cached m listed =>
      match s.inst.log.append m.op s.inst.defn.table m.row with
      | .error err => some { s with work := .refused err listed }
      | .ok (ev, log) =>
          some { s with
            inst := { s.inst with log := log }, work := .applied ev listed
            marks := s.marks.insert log.lastOffset s.inst.cache }
  | .applied ev listed => some { s with work := if listed && s.member then .due ev else .idle }
  | .due ev => some { s with conn := (deliverChange u s.conn ev).1, work := .idle }
  | .refused err listed =>
      some { s with
        conn := if listed && s.member && halts err then
          sendErr s.conn codeHalted err.text u.name else s.conn
        work := .idle }

/-- The next step of `handleSubscribe` and `subscribeShape`. -/
def sessionStep (u : Setup C) (s : State C) : Option (State C) :=
  match s.sub with
  | .idle =>
      if !s.connected then none
      else if 0 < u.resumeAt then
        match s.inst.log.after u.resumeAt with
        | some events =>
            some { s with sub := .replay u.resumeAt s.inst.log.lastOffset events }
        | none =>
            some { s with
              conn := sendErr s.conn codeMustResnapshot "resume offset not available" u.name
              sub := .resnapshot }
      else if u.resumeAt = 0 then some { s with sub := .offset s.inst.log.lastOffset }
      else some { s with sub := .resnapshot }
  | .offset start => some { s with sub := .rows start s.inst.materialized }
  | .rows start rows =>
      if ∀ row ∈ rows, row.marshals u.exotic = true then
        match s.conn.enqueue ⟨.snapshot u.name 0 start rows, some u.key⟩ with
        | (conn, true) => some { s with conn := conn, sub := .served start start }
        | (conn, false) =>
            some { s with conn := conn.sendBye reasonSlowClient, sub := .failed }
      else some { s with sub := .failed }
  | .replay start upTo [] => some { s with sub := .served start upTo }
  | .replay start upTo (ev :: events) =>
      match deliverChange u s.conn ev with
      | (conn, true) => some { s with conn := conn, sub := .replay start upTo events }
      | (conn, false) => some { s with conn := conn, sub := .failed }
  | .served start upTo => some { s with member := true, sub := .subscribed start upTo }
  | .subscribed _ _ | .failed | .resnapshot => none

def step (u : Setup C) (s : State C) : Ev → Option (State C)
  | .connect => if s.connected then none else some { s with connected := true }
  | .copy ch =>
      match s.work with
      | .idle => some { s with work := .copied ch s.connected }
      | _ => none
  | .fanOut => fanOutStep u s
  | .session => sessionStep u s
  | .pump => s.conn.pump.map fun conn => { s with conn := conn }

def Setup.start (u : Setup C) : State C where
  inst := u.inst
  conn := .new u.bufSize
  marks := (∅ : KeyMap Int (KeyMap String Row)).insert u.inst.log.lastOffset u.inst.cache

def machine (u : Setup C) : Machine (State C) Ev where
  init s := s = u.start
  step := step u

/-! ## What the session is owed -/

/-- `o + 1, o + 2, o + 3, …` -/
def Contiguous : Int → List Int → Prop
  | _, [] => True
  | o, x :: xs => x = o + 1 ∧ Contiguous (o + 1) xs

/-- The offset of a change message. -/
def offset? (m : Sent) : Option Int :=
  match m.message with
  | .change _ offset _ _ => some offset
  | _ => none

/-- The offsets of the change messages buffered so far. -/
def State.offsets (s : State C) : List Int := s.conn.accepted.filterMap offset?

/-- The event that fan-out has appended and not yet disposed of. -/
def Work.event : Work → Option Event
  | .applied ev _ | .due ev => some ev
  | _ => none

/-- **No lost or repeated update.** -/
structure Delivered (s : State C) : Prop where
  /-- The change messages are `start + 1, start + 2, …` -/
  contiguous : ∀ start upTo, s.sub.read = some (start, upTo) → Contiguous start s.offsets
  /-- They reach the stream's last offset once fan-out has nothing left to deliver. -/
  complete : ∀ start upTo, s.sub = .subscribed start upTo → s.conn.closed = false →
    s.work.event = none → start + s.offsets.length = s.inst.log.lastOffset
  /-- A snapshot is of the start offset and holds the stream's cache at that offset. -/
  snapshot : ∀ m ∈ s.conn.accepted, ∀ shape lsn offset rows,
    m.message = .snapshot shape lsn offset rows →
      (∃ cache, s.marks.lookup offset = some cache ∧ rows = cache.values) ∧
        ∀ start upTo, s.sub.read = some (start, upTo) → offset = start

/-- What a step must not do.  Fan-out tests an event that the log read did not cover
only after `addShape` and having listed the session, and one that it did cover only
before; the rows are read while the log still ends at the offset read before, with
no change written to the cache and not yet to the log; the client resumes at an
offset the log has reached; and events can be marshalled. -/
def orderly (u : Setup C) (s : State C) : Ev → Bool
  | .fanOut =>
      match s.work, s.sub.read with
      | .applied ev listed, some (_, upTo) => decide (upTo < ev.offset) == (listed && s.member)
      | .due ev, _ => ev.row.marshals u.exotic
      | _, _ => true
  | .session =>
      match s.sub, s.work with
      | .idle, _ => u.resumeAt ≤ s.inst.log.lastOffset
      | .offset _, .cached _ _ => false
      | .offset start, _ => s.inst.log.lastOffset = start
      | .replay _ _ (ev :: _), _ => ev.row.marshals u.exotic
      | _, _ => true
  | _ => true

/-! ## The invariant -/

theorem contiguous_append {o : Int} {xs ys : List Int} :
    Contiguous o (xs ++ ys) ↔ Contiguous o xs ∧ Contiguous (o + xs.length) ys := by
  induction xs generalizing o with
  | nil => simp [Contiguous]
  | cons x xs ih =>
      simp only [List.cons_append, Contiguous, ih, List.length_cons, and_assoc]
      have shift : o + 1 + (xs.length : Int) = o + ((xs.length + 1 : Nat) : Int) := by
        push_cast
        ring
      rw [shift]

theorem contiguous_drop (l : Log) {o : Nat} (within : o ≤ l.events.length) :
    Contiguous o ((l.events.drop o).map Event.offset) := by
  induction rest : l.events.length - o generalizing o with
  | zero =>
      have done : l.events.drop o = [] := List.drop_eq_nil_iff.2 (by omega)
      simp [done, Contiguous]
  | succ k ih =>
      have here : o < l.events.length := by omega
      rw [List.drop_eq_getElem_cons here, List.map_cons]
      refine ⟨l.numbered o here, ?_⟩
      exact_mod_cast ih (o := o + 1) (by omega) (by omega)

/-- The cache as it was at the last append. -/
def Work.Writes (c cache : KeyMap String Row) : Work → Prop
  | .cached m _ => cache = m.cache c
  | _ => cache = c

/-- The replayed events still to be enqueued. -/
def Sub.remaining : Sub → List Event
  | .replay _ _ events => events
  | _ => []

structure Inv (s : State C) : Prop where
  settled : ∃ c, s.marks.lookup s.inst.log.lastOffset = some c ∧ s.work.Writes c s.inst.cache
  marked : ∀ o c, s.marks.lookup o = some c → o ≤ s.inst.log.lastOffset
  /-- Fan-out holds the last event of the log. -/
  pending : ∀ ev, s.work.event = some ev → ev.offset = s.inst.log.lastOffset
  member : s.member = true ↔ ∃ start upTo, s.sub = .subscribed start upTo
  due : ∀ ev, s.work = .due ev → ∃ start upTo, s.sub = .subscribed start upTo ∧ upTo < ev.offset
  unhalted : ∀ m listed, s.work = .cached m listed → s.inst.log.halted = none
  untouched : s.sub = .idle → s.conn.accepted = []
  read : ∀ start upTo, s.sub.read = some (start, upTo) → upTo ≤ s.inst.log.lastOffset
  /-- Until `addShape`, what is buffered and what is left to replay reach `upTo`, and
  at most one event lies past it, still untested. -/
  window : ∀ start upTo, s.sub.read = some (start, upTo) → s.member = false →
    Contiguous start (s.offsets ++ s.sub.remaining.map Event.offset) ∧
      start + (s.offsets.length + s.sub.remaining.length) = upTo ∧
      (s.inst.log.lastOffset = upTo ∨
        s.inst.log.lastOffset = upTo + 1 ∧ ∃ ev listed, s.work = .applied ev listed)
  /-- From `addShape` on, only the event fan-out holds may be outstanding. -/
  live : ∀ start upTo, s.sub = .subscribed start upTo →
    Contiguous start s.offsets ∧ (s.conn.closed = false →
      (∀ ev, s.work.event = some ev → upTo < ev.offset →
        start + s.offsets.length + 1 = s.inst.log.lastOffset) ∧
      ((∀ ev, s.work.event = some ev → ev.offset ≤ upTo) →
        start + s.offsets.length = s.inst.log.lastOffset))
  sampled : ∀ start rows, s.sub = .rows start rows →
    ∃ cache, s.marks.lookup start = some cache ∧ rows = cache.values
  snapshot : ∀ m ∈ s.conn.accepted, ∀ shape lsn offset rows,
    m.message = .snapshot shape lsn offset rows →
      (∃ cache, s.marks.lookup offset = some cache ∧ rows = cache.values) ∧
        ∀ start upTo, s.sub.read = some (start, upTo) → offset = start

variable {u : Setup C} {s t : State C}

theorem Inv.delivered (inv : Inv s) : Delivered s where
  contiguous := by
    intro start upTo read
    cases joined : s.member with
    | false => exact (contiguous_append.1 (inv.window start upTo read joined).1).1
    | true =>
        obtain ⟨start', upTo', sub⟩ := inv.member.1 joined
        rw [sub] at read
        cases read
        exact (inv.live start upTo sub).1
  complete := by
    intro start upTo sub opened quiet
    refine ((inv.live start upTo sub).2 opened).2 fun ev held => ?_
    rw [quiet] at held
    cases held
  snapshot := inv.snapshot

theorem inv_start (u : Setup C) : Inv u.start where
  settled := ⟨u.inst.cache, by simp [Setup.start], rfl⟩
  marked := by
    intro o c found
    simp only [Setup.start, KeyMap.lookup_insert_eq] at found
    split at found
    · rename_i same
      exact same.le
    · simp at found
  pending := by simp [Setup.start, Work.event]
  member := by simp [Setup.start]
  due := by simp [Setup.start]
  unhalted := by simp [Setup.start]
  untouched _ := rfl
  read := by simp [Setup.start, Sub.read]
  window := by simp [Setup.start, Sub.read]
  live := by simp [Setup.start]
  sampled := by simp [Setup.start]
  snapshot := by simp [Setup.start, Conn.new, Conn.accepted]

/-! ## Steps of fan-out -/

/-- A step of fan-out outside the time between append and delivery: the log keeps
its end and the cache is what the new phase says. -/
theorem Inv.quiet (inv : Inv s) {inst : Instance C} {w : Work}
    (same : inst.log.lastOffset = s.inst.log.lastOffset) (before : s.work.event = none)
    (after : w.event = none) (halted : ∀ m listed, w = .cached m listed → inst.log.halted = none)
    (writes : ∀ c, s.work.Writes c s.inst.cache → w.Writes c inst.cache) :
    Inv { s with inst := inst, work := w } where
  settled := by
    obtain ⟨c, found, written⟩ := inv.settled
    exact ⟨c, by rw [same]; exact found, writes c written⟩
  marked o c found := by rw [same]; exact inv.marked o c found
  pending ev held := by rw [after] at held; cases held
  member := inv.member
  due ev held := by
    dsimp only at held
    simp [held, Work.event] at after
  unhalted := halted
  untouched := inv.untouched
  read start upTo here := by rw [same]; exact inv.read start upTo here
  window := by
    intro start upTo here joined
    obtain ⟨contiguous, count, last | ⟨-, ev, listed, held⟩⟩ := inv.window start upTo here joined
    · exact ⟨contiguous, count, Or.inl (same.trans last)⟩
    · simp [held, Work.event] at before
  live := by
    intro start upTo sub
    obtain ⟨contiguous, counts⟩ := inv.live start upTo sub
    refine ⟨contiguous, fun opened => ⟨fun ev held => ?_, fun _ => ?_⟩⟩
    · rw [after] at held
      cases held
    · rw [same]
      exact (counts opened).2 fun ev held => by rw [before] at held; cases held
  sampled := inv.sampled
  snapshot := inv.snapshot

theorem applyBegin_spec (inst : Instance C) (ch : Change) :
    (inst.applyBegin ch).1.log.lastOffset = inst.log.lastOffset ∧
      (∀ m, (inst.applyBegin ch).2 = .ok (some m) →
        (inst.applyBegin ch).1.cache = m.cache inst.cache ∧
          (inst.applyBegin ch).1.log.halted = none) ∧
      ((∀ m, (inst.applyBegin ch).2 ≠ .ok (some m)) →
        (inst.applyBegin ch).1.cache = inst.cache) := by
  rcases inst.applyBegin_cases ch with ⟨fp, log, after, events, -, silent⟩ | ⟨fp, m, after, live, -⟩
  · rw [after, Log.lastOffset_eq, Log.lastOffset_eq, events]
    exact ⟨rfl, fun m moved => absurd moved (silent m), fun _ => rfl⟩
  · rw [after]
    refine ⟨rfl, fun m' moved => ?_, fun silent => absurd rfl (silent m)⟩
    cases moved
    exact ⟨rfl, live⟩

theorem inv_begin {ch : Change} {listed : Bool} (inv : Inv s) (work : s.work = .copied ch listed)
    (stepped : fanOutStep u s = some t) : Inv t := by
  obtain ⟨same, wrote, kept⟩ := applyBegin_spec s.inst ch
  have before : s.work.event = none := by rw [work]; rfl
  simp only [fanOutStep, work] at stepped
  generalize s.inst.applyBegin ch = result at same wrote kept stepped
  obtain ⟨inst, err | (_ | m)⟩ := result <;> cases stepped
  · refine inv.quiet same before rfl (by simp) fun c written => ?_
    rw [work] at written
    exact (kept (by simp)).trans written
  · refine inv.quiet same before rfl (by simp) fun c written => ?_
    rw [work] at written
    exact (kept (by simp)).trans written
  · obtain ⟨cache, halted⟩ := wrote m rfl
    refine inv.quiet same before rfl (fun _ _ _ => halted) fun c written => ?_
    rw [work] at written
    exact cache.trans (congrArg _ written)

theorem append_lastOffset {l l' : Log} {ev : Event} {op : EventOp} {table : String} {row : Row}
    (appended : l.append op table row = .ok (ev, l')) :
    ev.offset = l.lastOffset + 1 ∧ l'.lastOffset = l.lastOffset + 1 := by
  unfold Log.append at appended
  split at appended
  · cases appended
  · cases appended
    rw [Log.lastOffset_eq, Log.lastOffset_eq]
    simp [l.next_eq]

theorem inv_append {m : Move} {listed : Bool} (inv : Inv s) (work : s.work = .cached m listed)
    (stepped : fanOutStep u s = some t) : Inv t := by
  have before : s.work.event = none := by rw [work]; rfl
  have live := inv.unhalted m listed work
  simp only [fanOutStep, work] at stepped
  generalize appended : s.inst.log.append m.op s.inst.defn.table m.row = result at stepped
  rcases result with err | ⟨ev, log⟩
  · simp [Log.append, live] at appended
  · cases stepped
    obtain ⟨offset, last⟩ := append_lastOffset appended
    -- no mark is at the new offset yet
    have older : ∀ o c, s.marks.lookup o = some c →
        (s.marks.insert log.lastOffset s.inst.cache).lookup o = some c := by
      intro o c found
      have bound := inv.marked o c found
      rw [KeyMap.lookup_insert_eq, if_neg (by omega)]
      exact found
    constructor
    · exact ⟨s.inst.cache, by simp, rfl⟩
    · intro o c found
      dsimp only at found ⊢
      rw [KeyMap.lookup_insert_eq] at found
      split at found
      · rename_i same
        exact same.le
      · have := inv.marked o c found
        omega
    · intro ev' held
      cases held
      exact offset.trans last.symm
    · exact inv.member
    · simp
    · simp
    · exact inv.untouched
    · intro start upTo here
      have := inv.read start upTo here
      dsimp only
      omega
    · intro start upTo here joined
      obtain ⟨contiguous, count, ended | ⟨-, ev', listed', held⟩⟩ :=
        inv.window start upTo here joined
      · exact ⟨contiguous, count, Or.inr ⟨by dsimp only; omega, ev, listed, rfl⟩⟩
      · simp [held, Work.event] at before
    · intro start upTo sub
      obtain ⟨contiguous, counts⟩ := inv.live start upTo sub
      have covered := inv.read start upTo (by rw [sub]; rfl)
      refine ⟨contiguous, fun opened => ⟨fun ev' held _ => ?_, fun small => ?_⟩⟩
      · have count := (counts opened).2 fun ev held => by rw [before] at held; cases held
        dsimp only [State.offsets] at count ⊢
        omega
      · have := small ev rfl
        omega
    · intro start rows sub
      obtain ⟨cache, found, same⟩ := inv.sampled start rows sub
      exact ⟨cache, older start cache found, same⟩
    · intro m member shape lsn o rows isSnapshot
      obtain ⟨⟨cache, found, same⟩, atStart⟩ := inv.snapshot m member shape lsn o rows isSnapshot
      exact ⟨⟨cache, older o cache found, same⟩, atStart⟩

/-- The log read decides whether an event is due: what it did not cover is. -/
theorem inv_test {ev : Event} {listed : Bool} (inv : Inv s) (work : s.work = .applied ev listed)
    (calm : orderly u s .fanOut = true) (stepped : fanOutStep u s = some t) : Inv t := by
  have held : s.work.event = some ev := by rw [work]; rfl
  have last := inv.pending ev held
  obtain ⟨c, found, written⟩ := inv.settled
  rw [work] at written
  have tested : ∀ start upTo, s.sub.read = some (start, upTo) →
      decide (upTo < ev.offset) = (listed && s.member) := by
    intro start upTo here
    simpa [orderly, work, here] using calm
  simp only [fanOutStep, work, Option.some.injEq] at stepped
  subst stepped
  cases joined : listed && s.member with
  | true =>
      obtain ⟨start, upTo, sub⟩ := inv.member.1 ((Bool.and_eq_true _ _).mp joined).2
      have past : upTo < ev.offset := by
        have := tested start upTo (by rw [sub]; rfl)
        simpa [joined] using this
      refine { inv with settled := ⟨c, found, written⟩, pending := ?_, due := ?_, unhalted := ?_,
                        window := ?_, live := ?_ }
      · intro ev' same
        cases same
        exact last
      · intro ev' same
        cases same
        exact ⟨start, upTo, sub, past⟩
      · simp
      · intro _ _ _ apart
        exact absurd ((Bool.and_eq_true _ _).mp joined).2 (by simpa using apart)
      · intro start' upTo' sub'
        obtain ⟨contiguous, counts⟩ := inv.live start' upTo' sub'
        refine ⟨contiguous, fun opened => ?_⟩
        have := counts opened
        rw [held] at this
        exact this
  | false =>
      have covered : ∀ start upTo, s.sub.read = some (start, upTo) → ev.offset ≤ upTo := by
        intro start upTo here
        have := tested start upTo here
        simpa [joined] using this
      refine { inv with settled := ⟨c, found, written⟩, pending := ?_, due := ?_, unhalted := ?_,
                        window := ?_, live := ?_ }
      · simp [Work.event]
      · simp
      · simp
      · intro start upTo here apart
        obtain ⟨contiguous, count, ended | ⟨ahead, -⟩⟩ := inv.window start upTo here apart
        · exact ⟨contiguous, count, Or.inl ended⟩
        · have := covered start upTo here
          omega
      · intro start upTo sub
        obtain ⟨contiguous, counts⟩ := inv.live start upTo sub
        refine ⟨contiguous, fun opened => ⟨by simp [Work.event], fun _ => ?_⟩⟩
        refine (counts opened).2 fun ev' same => ?_
        cases held.symm.trans same
        exact covered start upTo (by rw [sub]; rfl)

/-- A marshalled event is buffered on an open connection, or the connection is
closed afterwards. -/
theorem deliverChange_cases (u : Setup C) (conn : Conn Sent) {ev : Event}
    (marshals : ev.row.marshals u.exotic = true) :
    (conn.closed = false ∧ (deliverChange u conn ev).2 = true ∧
      (deliverChange u conn ev).1.closed = false ∧
      (deliverChange u conn ev).1.accepted =
        conn.accepted ++ [⟨.change u.name ev.offset ev.op ev.row, some u.key⟩]) ∨
    ((deliverChange u conn ev).2 = false ∧ (deliverChange u conn ev).1.closed = true ∧
      (deliverChange u conn ev).1.accepted = conn.accepted) := by
  simp only [deliverChange, enqueueChange, marshals, if_true]
  rcases conn.enqueue_cases ⟨.change u.name ev.offset ev.op ev.row, some u.key⟩ with
    ⟨opened, ok, still, accepted⟩ | refused
  · refine Or.inl ?_
    generalize conn.enqueue ⟨.change u.name ev.offset ev.op ev.row, some u.key⟩ = result at *
    obtain ⟨next, flag⟩ := result
    cases ok
    exact ⟨opened, rfl, still, accepted⟩
  · exact Or.inr (by simp [refused])

/-- Every snapshot message of `conn` was in the session's buffer before. -/
def NoNewSnapshot (s : State C) (conn : Conn Sent) : Prop :=
  ∀ m ∈ conn.accepted, m ∈ s.conn.accepted ∨
    ∀ shape lsn offset rows, m.message ≠ .snapshot shape lsn offset rows

theorem NoNewSnapshot.old {conn : Conn Sent} (old : NoNewSnapshot s conn) {m : Sent}
    (member : m ∈ conn.accepted) {shape : String} {lsn : LSN} {offset : Int} {rows : Multiset Row}
    (isSnapshot : m.message = .snapshot shape lsn offset rows) : m ∈ s.conn.accepted :=
  (old m member).resolve_right fun other => other shape lsn offset rows isSnapshot

theorem noNewSnapshot_of_subset {conn : Conn Sent} (same : conn.accepted = s.conn.accepted) :
    NoNewSnapshot s conn := fun _ member => Or.inl (same ▸ member)

theorem noNewSnapshot_append {conn : Conn Sent} {m : Sent}
    (accepted : conn.accepted = s.conn.accepted ++ [m])
    (other : ∀ shape lsn offset rows, m.message ≠ .snapshot shape lsn offset rows) :
    NoNewSnapshot s conn := by
  intro m' member
  rw [accepted] at member
  rcases List.mem_append.1 member with before | new
  · exact Or.inl before
  · cases List.mem_singleton.1 new
    exact Or.inr other

/-- A change that is buffered adds its offset, and no snapshot. -/
theorem sent_change {conn : Conn Sent} {ev : Event} {shape : String} {source : Option String}
    (accepted : conn.accepted =
      s.conn.accepted ++ [⟨.change shape ev.offset ev.op ev.row, source⟩]) :
    conn.accepted.filterMap offset? = s.offsets ++ [ev.offset] ∧ NoNewSnapshot s conn := by
  constructor
  · rw [accepted, List.filterMap_append]
    rfl
  · exact noNewSnapshot_append accepted fun _ _ _ _ => nofun

theorem inv_deliver {ev : Event} (inv : Inv s) (work : s.work = .due ev)
    (calm : orderly u s .fanOut = true) (stepped : fanOutStep u s = some t) : Inv t := by
  have marshals : ev.row.marshals u.exotic = true := by simpa [orderly, work] using calm
  have held : s.work.event = some ev := by rw [work]; rfl
  have last := inv.pending ev held
  obtain ⟨start, upTo, sub, past⟩ := inv.due ev work
  obtain ⟨c, found, written⟩ := inv.settled
  rw [work] at written
  obtain ⟨contiguous, counts⟩ := inv.live start upTo sub
  have joined : s.member = true := inv.member.2 ⟨start, upTo, sub⟩
  simp only [fanOutStep, work, Option.some.injEq] at stepped
  subst stepped
  refine { inv with settled := ⟨c, found, written⟩, pending := by simp [Work.event], due := by simp,
                    unhalted := by simp, untouched := by simp [sub], window := ?_, live := ?_,
                    snapshot := ?_ }
  · intro _ _ _ apart
    simp [joined] at apart
  · intro start' upTo' sub'
    cases sub.symm.trans sub'
    rcases deliverChange_cases u s.conn marshals with
      ⟨opened, -, -, accepted⟩ | ⟨-, closed, accepted⟩
    · have count := (counts opened).1 ev held past
      have offsets := (sent_change accepted).1
      dsimp only [State.offsets] at count contiguous offsets ⊢
      rw [offsets]
      refine ⟨contiguous_append.2 ⟨contiguous, by omega, trivial⟩,
        fun _ => ⟨by simp [Work.event], fun _ => ?_⟩⟩
      rw [List.length_append, List.length_singleton]
      push_cast
      omega
    · dsimp only [State.offsets] at contiguous ⊢
      rw [accepted]
      exact ⟨contiguous, fun opened => by simp [closed] at opened⟩
  · intro m member shape lsn o rows isSnapshot
    have old : NoNewSnapshot s (deliverChange u s.conn ev).1 := by
      rcases deliverChange_cases u s.conn marshals with ⟨-, -, -, accepted⟩ | ⟨-, -, accepted⟩
      · exact (sent_change accepted).2
      · exact noNewSnapshot_of_subset accepted
    exact inv.snapshot m (old.old member isSnapshot) shape lsn o rows isSnapshot

/-- Traffic on the connection that is neither a change nor a snapshot. -/
theorem Inv.chatter (inv : Inv s) {conn : Conn Sent}
    (offsets : conn.accepted.filterMap offset? = s.offsets)
    (opened : conn.closed = false → s.conn.closed = false) (old : NoNewSnapshot s conn)
    (idle : s.sub = .idle → conn.accepted = []) : Inv { s with conn := conn } := by
  refine { inv with untouched := idle, window := ?_, live := ?_, snapshot := ?_ }
  · intro start upTo here joined
    dsimp only [State.offsets]
    rw [offsets]
    exact inv.window start upTo here joined
  · intro start upTo sub
    obtain ⟨contiguous, counts⟩ := inv.live start upTo sub
    dsimp only [State.offsets]
    rw [offsets]
    exact ⟨contiguous, fun still => counts (opened still)⟩
  · intro m member shape lsn o rows isSnapshot
    exact inv.snapshot m (old.old member isSnapshot) shape lsn o rows isSnapshot

theorem sendErr_cases (conn : Conn Sent) (code text shape : String) :
    (sendErr conn code text shape).closed = conn.closed ∧
      ((sendErr conn code text shape).accepted = conn.accepted ∨
        (sendErr conn code text shape).accepted =
          conn.accepted ++ [⟨.error code text shape, none⟩]) := by
  unfold sendErr
  rcases conn.enqueue_cases ⟨.error code text shape, none⟩ with ⟨opened, -, still, accepted⟩ | same
  · exact ⟨still.trans opened.symm, Or.inr accepted⟩
  · rw [same]
    exact ⟨rfl, Or.inl rfl⟩

theorem noNewSnapshot_sendErr (s : State C) (code text shape : String) :
    NoNewSnapshot s (sendErr s.conn code text shape) := by
  rcases (sendErr_cases s.conn code text shape).2 with same | added
  · exact noNewSnapshot_of_subset same
  · exact noNewSnapshot_append added (by simp)

theorem inv_notice {err : ShapeError} {listed : Bool} (inv : Inv s)
    (work : s.work = .refused err listed) (stepped : fanOutStep u s = some t) : Inv t := by
  have before : s.work.event = none := by rw [work]; rfl
  simp only [fanOutStep, work, Option.some.injEq] at stepped
  subst stepped
  have quiet : Inv { s with work := .idle } :=
    inv.quiet rfl before rfl (by simp) fun c written => by
      rw [work] at written
      exact written
  split
  · rename_i told
    simp only [Bool.and_eq_true] at told
    obtain ⟨closed, accepted⟩ := sendErr_cases s.conn codeHalted err.text u.name
    refine quiet.chatter ?_ (fun opened => closed ▸ opened) (noNewSnapshot_sendErr s _ _ _) ?_
    · rcases accepted with same | added
      · rw [same]
        rfl
      · rw [added, List.filterMap_append]
        simp [State.offsets, offset?]
    · intro idle
      obtain ⟨start, upTo, sub⟩ := inv.member.1 told.1.2
      simp [sub] at idle
  · exact quiet

theorem inv_fanOut (inv : Inv s) (calm : orderly u s .fanOut = true)
    (stepped : fanOutStep u s = some t) : Inv t := by
  cases work : s.work with
  | idle => simp [fanOutStep, work] at stepped
  | copied ch listed => exact inv_begin inv work stepped
  | cached m listed => exact inv_append inv work stepped
  | applied ev listed => exact inv_test inv work calm stepped
  | due ev => exact inv_deliver inv work calm stepped
  | refused err listed => exact inv_notice inv work stepped

/-! ## Steps of the session -/

/-- The subscription ends without being served from this stream. -/
theorem Inv.abandon (inv : Inv s) {conn : Conn Sent} {sub : Sub} (unread : sub.read = none)
    (moved : sub ≠ .idle) (apart : s.member = false) (old : NoNewSnapshot s conn) :
    Inv { s with conn := conn, sub := sub } := by
  have unsubscribed : ∀ start upTo, sub ≠ .subscribed start upTo := by
    rintro start upTo rfl
    cases unread
  refine { inv with member := ?_, due := ?_, untouched := fun idle => absurd idle moved, read := ?_,
                    window := ?_, live := ?_, sampled := ?_, snapshot := ?_ }
  · simp [apart, unsubscribed]
  · intro ev work
    obtain ⟨start, upTo, subscribed, -⟩ := inv.due ev work
    have := inv.member.2 ⟨start, upTo, subscribed⟩
    simp [apart] at this
  · simp [unread]
  · simp [unread]
  · intro start upTo same
    exact absurd same (unsubscribed start upTo)
  · rintro start rows same
    dsimp only at same
    simp [same, Sub.read] at unread
  · intro m member shape lsn o rows isSnapshot
    have before := old.old member isSnapshot
    exact ⟨(inv.snapshot m before shape lsn o rows isSnapshot).1, by simp [unread]⟩

/-- A step of the session that leaves the connection alone, before `addShape`. -/
theorem Inv.advance (inv : Inv s) {sub : Sub} {start upTo : Int}
    (read : sub.read = some (start, upTo)) (apart : s.member = false)
    (bound : upTo ≤ s.inst.log.lastOffset)
    (window : Contiguous start (s.offsets ++ sub.remaining.map Event.offset) ∧
      start + (s.offsets.length + sub.remaining.length) = upTo ∧
      (s.inst.log.lastOffset = upTo ∨
        s.inst.log.lastOffset = upTo + 1 ∧ ∃ ev listed, s.work = .applied ev listed))
    (unsubscribed : ∀ start upTo, sub ≠ .subscribed start upTo)
    (sampled : ∀ start rows, sub = .rows start rows →
      ∃ cache, s.marks.lookup start = some cache ∧ rows = cache.values)
    (snapshots : ∀ m ∈ s.conn.accepted, ∀ shape lsn offset rows,
      m.message = .snapshot shape lsn offset rows → offset = start) :
    Inv { s with sub := sub } := by
  refine { inv with member := ?_, due := ?_, untouched := ?_, read := ?_, window := ?_, live := ?_,
                    sampled := sampled, snapshot := ?_ }
  · simp [apart, unsubscribed]
  · intro ev work
    obtain ⟨start', upTo', subscribed, -⟩ := inv.due ev work
    have := inv.member.2 ⟨start', upTo', subscribed⟩
    simp [apart] at this
  · rintro idle
    dsimp only at idle
    simp [idle, Sub.read] at read
  · intro start' upTo' same
    cases read.symm.trans same
    exact bound
  · intro start' upTo' same _
    cases read.symm.trans same
    exact window
  · intro start' upTo' same
    exact absurd same (unsubscribed start' upTo')
  · intro m member shape lsn o rows isSnapshot
    refine ⟨(inv.snapshot m member shape lsn o rows isSnapshot).1, fun start' upTo' same => ?_⟩
    cases read.symm.trans same
    exact snapshots m member shape lsn o rows isSnapshot

theorem Inv.unjoined (inv : Inv s) (unsubscribed : ∀ start upTo, s.sub ≠ .subscribed start upTo) :
    s.member = false := by
  cases joined : s.member with
  | false => rfl
  | true =>
      obtain ⟨start, upTo, sub⟩ := inv.member.1 joined
      exact absurd sub (unsubscribed start upTo)

/-- The first read of the log: nothing has been buffered yet. -/
theorem inv_readLog (inv : Inv s) (sub : s.sub = .idle) (calm : orderly u s .session = true)
    (stepped : sessionStep u s = some t) : Inv t := by
  have apart : s.member = false := inv.unjoined (by simp [sub])
  have empty : s.conn.accepted = [] := inv.untouched sub
  have nothing : s.offsets = [] := by simp [State.offsets, empty]
  have reached : u.resumeAt ≤ s.inst.log.lastOffset := by simpa [orderly, sub] using calm
  simp only [sessionStep, sub] at stepped
  split_ifs at stepped with waiting resumes fresh
  · rw [Log.after_eq_drop _ resumes.le reached] at stepped
    cases stepped
    have length := s.inst.log.lastOffset_eq
    have contiguous := contiguous_drop s.inst.log (o := u.resumeAt.toNat) (by omega)
    rw [Int.toNat_of_nonneg resumes.le] at contiguous
    refine inv.advance rfl apart le_rfl ⟨?_, ?_, Or.inl rfl⟩ (by simp) (by simp) (by simp [empty])
    · rw [nothing]
      exact contiguous
    · rw [nothing]
      simp only [Sub.remaining, List.length_nil, List.length_drop, length]
      omega
  · cases stepped
    refine inv.advance rfl apart le_rfl ⟨?_, ?_, Or.inl rfl⟩ (by simp) (by simp) (by simp [empty])
    · simp [nothing, Sub.remaining, Contiguous]
    · simp [nothing, Sub.remaining]
  · cases stepped
    exact inv.abandon rfl (by simp) apart (noNewSnapshot_of_subset rfl)

/-- The rows are read while the log still ends at the offset read before. -/
theorem inv_readRows {start : Int} (inv : Inv s) (sub : s.sub = .offset start)
    (calm : orderly u s .session = true) (stepped : sessionStep u s = some t) : Inv t := by
  have apart : s.member = false := inv.unjoined (by simp [sub])
  have read : s.sub.read = some (start, start) := by rw [sub]; rfl
  have still : s.inst.log.lastOffset = start ∧ ∀ m listed, s.work ≠ .cached m listed := by
    cases work : s.work <;> simp_all [orderly]
  obtain ⟨c, found, written⟩ := inv.settled
  have same : s.inst.cache = c := by
    cases work : s.work <;> simp_all [Work.Writes]
  obtain ⟨contiguous, count, rest⟩ := inv.window start start read apart
  simp only [sessionStep, sub, Option.some.injEq] at stepped
  subst stepped
  refine inv.advance rfl apart (inv.read start start read) ?_ (by simp) ?_
    (fun m member shape lsn o rows isSnapshot =>
      (inv.snapshot m member shape lsn o rows isSnapshot).2 start start read)
  · rw [sub] at contiguous count
    exact ⟨contiguous, count, rest⟩
  · intro start' rows here
    cases here
    exact ⟨c, still.1 ▸ found, by rw [← same]; rfl⟩

theorem inv_sendSnapshot {start : Int} {rows : Multiset Row} (inv : Inv s)
    (sub : s.sub = .rows start rows) (stepped : sessionStep u s = some t) : Inv t := by
  have apart : s.member = false := inv.unjoined (by simp [sub])
  have read : s.sub.read = some (start, start) := by rw [sub]; rfl
  simp only [sessionStep, sub] at stepped
  split_ifs at stepped
  · obtain ⟨contiguous, count, rest⟩ := inv.window start start read apart
    obtain ⟨cache, found, same⟩ := inv.sampled start rows sub
    rcases s.conn.enqueue_cases ⟨.snapshot u.name 0 start rows, some u.key⟩ with
      ⟨opened, ok, still, accepted⟩ | refused
    · generalize s.conn.enqueue ⟨.snapshot u.name 0 start rows, some u.key⟩ = result at *
      obtain ⟨conn, flag⟩ := result
      cases ok
      cases stepped
      have offsets : conn.accepted.filterMap offset? = s.offsets := by
        dsimp only at accepted
        rw [accepted, List.filterMap_append]
        simp [State.offsets, offset?]
      -- first the phase, then the connection with its new message
      have served : Inv { s with sub := .served start start } :=
        inv.advance rfl apart (inv.read start start read)
          (by rw [sub] at contiguous count; exact ⟨contiguous, count, rest⟩) (by simp) (by simp)
          (fun m member shape lsn o rows isSnapshot =>
            (inv.snapshot m member shape lsn o rows isSnapshot).2 start start read)
      refine { served with untouched := by simp, window := ?_, live := by simp, snapshot := ?_ }
      · intro start' upTo' here joined
        dsimp only [State.offsets]
        rw [offsets]
        exact served.window start' upTo' here joined
      · intro m member shape lsn o rows' isSnapshot
        dsimp only at member accepted
        rw [accepted] at member
        rcases List.mem_append.1 member with before | new
        · exact served.snapshot m before shape lsn o rows' isSnapshot
        · cases List.mem_singleton.1 new
          cases isSnapshot
          refine ⟨⟨cache, found, same⟩, fun start' upTo' here => ?_⟩
          cases here
          rfl
    · rw [refused] at stepped
      cases stepped
      exact inv.abandon rfl (by simp) apart (noNewSnapshot_of_subset (by simp))
  · cases stepped
    exact inv.abandon rfl (by simp) apart (noNewSnapshot_of_subset rfl)

theorem inv_replay {start upTo : Int} {events : List Event} (inv : Inv s)
    (sub : s.sub = .replay start upTo events) (calm : orderly u s .session = true)
    (stepped : sessionStep u s = some t) : Inv t := by
  have apart : s.member = false := inv.unjoined (by simp [sub])
  have read : s.sub.read = some (start, upTo) := by rw [sub]; rfl
  obtain ⟨contiguous, count, rest⟩ := inv.window start upTo read apart
  have snapshots : ∀ m ∈ s.conn.accepted, ∀ shape lsn o rows,
      m.message = .snapshot shape lsn o rows → o = start := fun m member shape lsn o rows here =>
    (inv.snapshot m member shape lsn o rows here).2 start upTo read
  rw [sub] at contiguous count
  cases events with
  | nil =>
      simp only [sessionStep, sub, Option.some.injEq] at stepped
      subst stepped
      exact inv.advance rfl apart (inv.read start upTo read) ⟨contiguous, count, rest⟩ (by simp)
        (by simp) snapshots
  | cons ev events =>
      have marshals : ev.row.marshals u.exotic = true := by simpa [orderly, sub] using calm
      simp only [sessionStep, sub] at stepped
      rcases deliverChange_cases u s.conn marshals with
        ⟨opened, ok, still, accepted⟩ | ⟨refused, -, accepted⟩
      · generalize deliverChange u s.conn ev = result at *
        obtain ⟨conn, flag⟩ := result
        cases ok
        cases stepped
        dsimp only at accepted
        obtain ⟨offsets, old⟩ := sent_change accepted
        refine { inv with
          member := by simp [apart], due := ?_, untouched := by simp, read := ?_, window := ?_,
          live := by simp, sampled := by simp, snapshot := ?_ }
        · intro ev' work
          obtain ⟨start', upTo', subscribed, -⟩ := inv.due ev' work
          simp [sub] at subscribed
        · intro start' upTo' here
          cases here
          exact inv.read start upTo read
        · intro start' upTo' here _
          cases here
          dsimp only [State.offsets, Sub.remaining] at contiguous count offsets ⊢
          rw [offsets]
          refine ⟨by simpa using contiguous, ?_, rest⟩
          simp only [List.length_append, List.length_cons, List.length_nil] at count ⊢
          push_cast at count ⊢
          omega
        · intro m member shape lsn o rows isSnapshot
          have before := old.old member isSnapshot
          refine ⟨(inv.snapshot m before shape lsn o rows isSnapshot).1,
            fun start' upTo' here => ?_⟩
          cases here
          exact snapshots m before shape lsn o rows isSnapshot
      · generalize deliverChange u s.conn ev = result at *
        obtain ⟨conn, flag⟩ := result
        cases refused
        cases stepped
        exact inv.abandon rfl (by simp) apart (noNewSnapshot_of_subset accepted)

/-- From `addShape` on the session gets what fan-out tests. -/
theorem inv_addShape {start upTo : Int} (inv : Inv s) (sub : s.sub = .served start upTo)
    (stepped : sessionStep u s = some t) : Inv t := by
  have apart : s.member = false := inv.unjoined (by simp [sub])
  have read : s.sub.read = some (start, upTo) := by rw [sub]; rfl
  obtain ⟨contiguous, count, rest⟩ := inv.window start upTo read apart
  rw [sub] at contiguous count
  simp only [Sub.remaining, List.map_nil, List.append_nil, List.length_nil] at contiguous count
  simp only [sessionStep, sub, Option.some.injEq] at stepped
  subst stepped
  refine { inv with member := by simp, due := ?_, untouched := by simp, read := ?_,
                    window := by simp, live := ?_, sampled := by simp, snapshot := ?_ }
  · intro ev work
    obtain ⟨start', upTo', subscribed, -⟩ := inv.due ev work
    simp [sub] at subscribed
  · intro start' upTo' here
    cases here
    exact inv.read start upTo read
  · intro start' upTo' here
    cases here
    refine ⟨contiguous, fun _ => ⟨fun ev held past => ?_, fun covered => ?_⟩⟩
    · have last := inv.pending ev held
      dsimp only [State.offsets] at count ⊢
      rcases rest with ended | ⟨ahead, -⟩ <;> omega
    · dsimp only [State.offsets] at count ⊢
      rcases rest with ended | ⟨ahead, ev, listed, work⟩
      · omega
      · have held : s.work.event = some ev := by rw [work]; rfl
        have last := inv.pending ev held
        have := covered ev held
        omega
  · intro m member shape lsn o rows isSnapshot
    obtain ⟨cached, atStart⟩ := inv.snapshot m member shape lsn o rows isSnapshot
    refine ⟨cached, fun start' upTo' here => ?_⟩
    cases here
    exact atStart start upTo read

theorem inv_session (inv : Inv s) (calm : orderly u s .session = true)
    (stepped : sessionStep u s = some t) : Inv t := by
  cases sub : s.sub with
  | idle => exact inv_readLog inv sub calm stepped
  | offset start => exact inv_readRows inv sub calm stepped
  | rows start rows => exact inv_sendSnapshot inv sub stepped
  | replay start upTo events => exact inv_replay inv sub calm stepped
  | served start upTo => exact inv_addShape inv sub stepped
  | subscribed start upTo => simp [sessionStep, sub] at stepped
  | failed => simp [sessionStep, sub] at stepped
  | resnapshot => simp [sessionStep, sub] at stepped

theorem inv_step {ev : Ev} (inv : Inv s) (calm : orderly u s ev = true)
    (stepped : step u s ev = some t) : Inv t := by
  cases ev with
  | connect =>
      simp only [step] at stepped
      split_ifs at stepped
      cases stepped
      exact { inv with }
  | copy ch =>
      simp only [step] at stepped
      split at stepped
      · rename_i work
        cases stepped
        refine inv.quiet rfl (by rw [work]; rfl) rfl (by simp) fun c written => ?_
        rw [work] at written
        exact written
      · cases stepped
  | fanOut => exact inv_fanOut inv calm stepped
  | session => exact inv_session inv calm stepped
  | pump =>
      simp only [step, Option.map_eq_some_iff] at stepped
      obtain ⟨conn, pumped, rfl⟩ := stepped
      obtain ⟨accepted, closed⟩ := Conn.pump_spec pumped
      refine inv.chatter ?_ (fun opened => closed ▸ opened) (noNewSnapshot_of_subset accepted)
        fun idle => accepted.trans (inv.untouched idle)
      rw [accepted]
      rfl

/-- **No lost or repeated update.**  In every state of an orderly run the session's
change messages are `o + 1, o + 2, …` from the offset `o` its subscription starts at,
up to the stream's last offset, and its snapshot is the stream's cache at `o`. -/
theorem subscription_exact (u : Setup C) {events : List Ev}
    (calm : (machine u).Meets (fun s ev => orderly u s ev = true) u.start events) :
    (machine u).Along Delivered u.start events :=
  Machine.along_of_meets (I := Inv) (fun _ inv => inv.delivered)
    (fun _ _ _ inv calm stepped => inv_step inv calm stepped) (inv_start u) calm

namespace Tasks

def tasks : Definition Unit :=
  { name := "tasks", schema := "", table := "", primaryKey := []
    bind := some fun _ => .ok (.notNull "id") }

def setup : Setup Unit where
  inst := .start tasks (.notNull "id")
  name := "tasks"
  key := streamKey "tasks" ""
  resumeAt := 0
  bufSize := 64
  exotic _ := none

def inserted : Change :=
  { schema := "public", table := "tasks", op := .insert, commitLSN := 10,
    new := some (KeyMap.ofList [("id", .int64 1)]) }

/-- The subscription, and then the dispatch of an insert. -/
def inTurn : List Ev :=
  [.connect, .session, .session, .session, .session, .copy inserted, .fanOut, .fanOut, .fanOut,
    .fanOut]

theorem subscription_exact_inTurn :
    ∃ t, (machine setup).run setup.start inTurn = some t ∧ t.offsets = [1] ∧ Delivered t := by
  have calm : (machine setup).Meets (fun s ev => orderly setup s ev = true) setup.start inTurn := by
    decide
  exact ⟨_, rfl, by decide, (subscription_exact setup calm).last rfl⟩

/-- The dispatch falls between the read of the snapshot and `addShape`. -/
def overtaken : List Ev :=
  [.connect, .session, .session, .copy inserted, .fanOut, .fanOut, .fanOut, .session, .session]

/-- The insert is neither in the snapshot nor among the change messages, and nothing
is left that could still deliver it. -/
theorem missed_update :
    ∃ t, (machine setup).run setup.start overtaken = some t ∧ t.sub = .subscribed 0 0 ∧
      t.conn.accepted = [⟨.snapshot "tasks" 0 0 0, some setup.key⟩] ∧
      t.inst.log.lastOffset = 1 ∧ t.work = .idle ∧ ¬ Delivered t := by
  refine ⟨_, rfl, rfl, by decide, rfl, rfl, fun delivered => ?_⟩
  have reached := delivered.complete 0 0 rfl rfl rfl
  revert reached
  decide

end Tasks

end Subscribe

end Tether
