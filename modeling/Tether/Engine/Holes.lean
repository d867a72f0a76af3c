/-
# Tether.Engine.Holes — the change messages of one connection

Two goroutines put change messages into a connection: `dispatchChange`, which comes to a
session with the events of one change, and the session's own resume loop.  Each event is
handed to `enqueueChange`.  If the row cannot be marshalled the event is gone and the loop
goes on; if the buffer is full or the connection closed, the loop ends and `SendBye` is
called, but only after `Enqueue` has returned.

The machine is one connection with both loops, whatever events they are given, and with
everything else that is put into the buffer.  With nothing in between, its loops compute
what `Session.deliver` and `deliverEvents` say (`run_delivering`, `run_replaying`).

`NoHole` says of a step that it puts no change past one that was due and did not get in.
It holds if every row can be marshalled and no change is put into the buffer between a
refusal and its `SendBye` (`Clean`).
-/
import Tether.Engine.Dispatch
import Tether.Lib.Machine

namespace Tether.Holes

open Lib Wal Shape Transport

set_option autoImplicit false

variable (exotic : Value → Option Json)

/-- Where `dispatchChange` is in its last loop, at this session. -/
inductive Work where
  | idle
  | delivering (results : List Applied)
  | sending (r : Applied) (results : List Applied)
  /-- `Enqueue` has refused an event. -/
  | refused (results : List Applied)

/-- Where the resume loop of `subscribeShape` is; `r` are the events of the session's own
stream that are still to be sent. -/
inductive Sub where
  | idle
  | replaying (r : Applied)
  | refused

/-- `dropped` is a ghost: the events that were due and are not in the buffer, each with the
key of its stream. -/
structure State where
  conn : Conn Sent
  shapes : Finset String := ∅
  work : Work := .idle
  sub : Sub := .idle
  dropped : List (String × Int) := []

inductive Ev where
  /-- `dispatchChange` comes to the session. -/
  | dispatch (results : List Applied)
  /-- `Log.After` has answered. -/
  | replay (r : Applied)
  | run
  | session
  /-- `addShape` and `clearMembership`. -/
  | members (shapes : Finset String)
  /-- A snapshot, an error or the answer to a mutation. -/
  | other (m : Sent)
  /-- A `SendBye` for another reason. -/
  | disconnect (reason : String)
  | pump
  | close

def isChange (m : Sent) : Bool :=
  match m.message with
  | .change _ _ _ _ => true
  | _ => false

def due (r : Applied) (events : List Event) : List (String × Int) :=
  events.map fun ev => (r.source, ev.offset)

/-- One turn of either loop: `enqueueChange` on the first of the events that are left. -/
def State.offer (s : State) (r : Applied) (ev : Event) (events : List Event) : State × Bool :=
  match enqueueChange exotic s.conn r.source r.shapeName ev with
  | (conn, true) =>
      ({ s with
        conn := conn
        dropped := s.dropped ++ due r (if ev.row.marshals exotic then [] else [ev]) }, true)
  | (conn, false) => ({ s with conn := conn, dropped := s.dropped ++ due r (ev :: events) }, false)

def runStep (s : State) : Option State :=
  match s.work with
  | .idle => none
  | .delivering [] => some { s with work := .idle }
  | .delivering (r :: results) =>
      some { s with
        work := if r.shapeName ∈ s.shapes then .sending r results else .delivering results }
  | .sending r results =>
      match r.events with
      | [] => some { s with work := .delivering results }
      | ev :: events =>
          match s.offer exotic r ev events with
          | (s, true) => some { s with work := .sending { r with events := events } results }
          | (s, false) => some { s with work := .refused results }
  | .refused results =>
      some { s with conn := s.conn.sendBye reasonSlowClient, work := .delivering results }

def sessionStep (s : State) : Option State :=
  match s.sub with
  | .idle => none
  | .replaying r =>
      match r.events with
      | [] => some { s with sub := .idle }
      | ev :: events =>
          match s.offer exotic r ev events with
          | (s, true) => some { s with sub := .replaying { r with events := events } }
          | (s, false) => some { s with sub := .refused }
  | .refused => some { s with conn := s.conn.sendBye reasonSlowClient, sub := .idle }

def step (s : State) : Ev → Option State
  | .dispatch results =>
      match s.work with
      | .idle => some { s with work := .delivering results }
      | _ => none
  | .replay r =>
      match s.sub with
      | .idle => some { s with sub := .replaying r }
      | _ => none
  | .run => runStep exotic s
  | .session => sessionStep exotic s
  | .members shapes => some { s with shapes := shapes }
  | .other m => if isChange m then none else some { s with conn := (s.conn.enqueue m).1 }
  | .disconnect reason => some { s with conn := s.conn.sendBye reason }
  | .pump => s.conn.pump.map fun conn => { s with conn := conn }
  | .close => some { s with conn := s.conn.close }

/-- A connection on which nothing has been dropped. -/
structure Init (s : State) : Prop where
  work : s.work = .idle
  sub : s.sub = .idle
  dropped : s.dropped = []

def machine : Machine State Ev := ⟨Init, step exotic⟩

/-- The event that a step hands to `enqueueChange`. -/
def handed (s : State) : Ev → Option (Applied × Event)
  | .run =>
      match s.work with
      | .sending r _ => r.events.head?.map fun ev => (r, ev)
      | _ => none
  | .session =>
      match s.sub with
      | .replaying r => r.events.head?.map fun ev => (r, ev)
      | _ => none
  | _ => none

/-- The step puts the event into the buffer. -/
def Puts (s : State) (r : Applied) (ev : Event) : Prop :=
  ev.row.marshals exotic = true ∧ (enqueueChange exotic s.conn r.source r.shapeName ev).2 = true

instance (s : State) (r : Applied) (ev : Event) : Decidable (Puts exotic s r ev) :=
  inferInstanceAs (Decidable (_ ∧ _))

/-- **No hole.**  The step puts no change into the buffer that is past a dropped one of the
same stream. -/
def NoHole (s : State) (e : Ev) : Prop :=
  ∀ p ∈ handed s e, Puts exotic s p.1 p.2 → ∀ d ∈ s.dropped, d.1 = p.1.source → p.2.offset ≤ d.2

instance (s : State) (e : Ev) : Decidable (NoHole exotic s e) :=
  inferInstanceAs (Decidable (∀ p ∈ handed s e, _ → ∀ d ∈ s.dropped, _ → _))

def Work.parts : Work → Bool
  | .refused _ => true
  | _ => false

def Sub.parts : Sub → Bool
  | .refused => true
  | _ => false

/-- `Enqueue` has refused an event, and `SendBye` is still to be called. -/
def State.parting (s : State) : Bool := s.work.parts || s.sub.parts

/-- The row can be marshalled, and is not put into the buffer before a `SendBye` that is due. -/
def Clean (s : State) (e : Ev) : Bool :=
  match handed s e with
  | some (r, ev) => ev.row.marshals exotic && !(s.parting && Puts exotic s r ev)
  | none => true

/-! ## The loops without interruption -/

variable {exotic} {s t : State}

/-- A turn does what the first turn of `deliverEvents` does. -/
theorem State.offer_delivers (s : State) (r : Applied) (ev : Event) (events : List Event) :
    ∃ s' : State, s'.shapes = s.shapes ∧
      ((s.offer exotic r ev events = (s', true) ∧
          deliverEvents exotic r.source r.shapeName s.conn (ev :: events) =
            deliverEvents exotic r.source r.shapeName s'.conn events) ∨
        s.offer exotic r ev events = (s', false) ∧
          deliverEvents exotic r.source r.shapeName s.conn (ev :: events) =
            s'.conn.sendBye reasonSlowClient) := by
  rcases outcome : enqueueChange exotic s.conn r.source r.shapeName ev with ⟨conn, _ | _⟩
  · refine ⟨(s.offer exotic r ev events).1, ?_, .inr ?_⟩ <;> simp [offer, deliverEvents, outcome]
  · refine ⟨(s.offer exotic r ev events).1, ?_, .inl ?_⟩ <;> simp [offer, deliverEvents, outcome]

/-- The innermost loop of `dispatchChange`. -/
theorem run_sending (r : Applied) (results : List Applied) (work : s.work = .sending r results) :
    ∃ n t, (machine exotic).run s (List.replicate n .run) = some t ∧ t.work = .delivering results ∧
      t.conn = deliverEvents exotic r.source r.shapeName s.conn r.events ∧ t.shapes = s.shapes := by
  obtain ⟨source, shapeName, events⟩ := r
  induction events generalizing s with
  | nil =>
      refine ⟨1, { s with work := .delivering results }, ?_, rfl, rfl, rfl⟩
      simp [Machine.run, machine, step, runStep, work]
  | cons ev events ih =>
      obtain ⟨s', shapes, accepted | refused⟩ :=
        s.offer_delivers ⟨source, shapeName, ev :: events⟩ ev events
      · obtain ⟨n, t, ran, after, sent, kept⟩ :=
          ih (s := { s' with work := .sending ⟨source, shapeName, events⟩ results }) rfl
        refine ⟨n + 1, t, ?_, after, sent.trans accepted.2.symm, kept.trans shapes⟩
        refine Machine.run_cons.2 ⟨_, ?_, ran⟩
        simp [machine, step, runStep, work, accepted.1]
      · refine ⟨2, { s' with
          conn := s'.conn.sendBye reasonSlowClient, work := .delivering results },
          ?_, rfl, refused.2.symm, shapes⟩
        simp [List.replicate, Machine.run, machine, step, runStep, work, refused.1]

/-- **The last loop of `dispatchChange`**, at a session that nothing else happens to, is
`Session.deliver`. -/
theorem run_delivering {C : Type} (session : Session C) (results : List Applied)
    (conn : s.conn = session.conn) (shapes : s.shapes = session.shapes)
    (work : s.work = .delivering results) :
    ∃ n t, (machine exotic).run s (List.replicate n .run) = some t ∧ t.work = .idle ∧
      t.conn = (session.deliver exotic results).conn := by
  induction results generalizing s session with
  | nil =>
      refine ⟨1, { s with work := .idle }, ?_, rfl, conn⟩
      simp [Machine.run, machine, step, runStep, work]
  | cons r results ih =>
      by_cases subscribed : r.shapeName ∈ s.shapes
      · obtain ⟨n, t, ran, after, sent, kept⟩ :=
          run_sending (s := { s with work := .sending r results }) r results rfl
        obtain ⟨n', t', ran', idle, delivered⟩ := ih
          { session with conn := deliverEvents exotic r.source r.shapeName session.conn r.events }
          (by rw [sent, conn]) (by rw [kept, shapes]) after
        refine ⟨1 + n + n', t', ?_, idle, ?_⟩
        · rw [List.replicate_add, List.replicate_add]
          refine Machine.run_trans (Machine.run_trans ?_ ran) ran'
          simp [Machine.run, machine, step, runStep, work, subscribed]
        · rw [delivered, Session.deliver, if_pos (shapes ▸ subscribed)]
      · obtain ⟨n, t, ran, idle, delivered⟩ :=
          ih (s := { s with work := .delivering results }) session conn shapes rfl
        refine ⟨n + 1, t, ?_, idle, ?_⟩
        · refine Machine.run_cons.2 ⟨_, ?_, ran⟩
          simp [machine, step, runStep, work, subscribed]
        · rw [delivered, Session.deliver, if_neg (shapes ▸ subscribed)]

/-- The resume loop, without interruption. -/
theorem run_replaying (r : Applied) (sub : s.sub = .replaying r) :
    ∃ n t, (machine exotic).run s (List.replicate n .session) = some t ∧ t.sub = .idle ∧
      t.conn = deliverEvents exotic r.source r.shapeName s.conn r.events := by
  obtain ⟨source, shapeName, events⟩ := r
  induction events generalizing s with
  | nil =>
      refine ⟨1, { s with sub := .idle }, ?_, rfl, rfl⟩
      simp [Machine.run, machine, step, sessionStep, sub]
  | cons ev events ih =>
      obtain ⟨s', -, accepted | refused⟩ :=
        s.offer_delivers ⟨source, shapeName, ev :: events⟩ ev events
      · obtain ⟨n, t, ran, idle, sent⟩ :=
          ih (s := { s' with sub := .replaying ⟨source, shapeName, events⟩ }) rfl
        refine ⟨n + 1, t, ?_, idle, sent.trans accepted.2.symm⟩
        refine Machine.run_cons.2 ⟨_, ?_, ran⟩
        simp [machine, step, sessionStep, sub, accepted.1]
      · refine ⟨2, { s' with conn := s'.conn.sendBye reasonSlowClient, sub := .idle },
          ?_, rfl, refused.2.symm⟩
        simp [List.replicate, Machine.run, machine, step, sessionStep, sub, refused.1]

/-! ## What becomes of an event -/

theorem enqueueChange_cases (conn : Conn Sent) (source shapeName : String) {ev : Event}
    (marshals : ev.row.marshals exotic = true) :
    (conn.closed = false ∧ ∃ conn', enqueueChange exotic conn source shapeName ev = (conn', true) ∧
        conn'.closed = false) ∨
      enqueueChange exotic conn source shapeName ev = (conn, false) := by
  rw [enqueueChange, if_pos marshals]
  rcases conn.enqueue_cases ⟨.change shapeName ev.offset ev.op ev.row, some source⟩ with
    ⟨opened, accepted, still, -⟩ | refused
  · exact .inl ⟨opened, _, Prod.ext rfl accepted, still⟩
  · exact .inr refused

/-- A turn with a row that can be marshalled puts it into an open connection, or drops it. -/
theorem State.offer_cases (s : State) (r : Applied) {ev : Event} (events : List Event)
    (marshals : ev.row.marshals exotic = true) :
    (s.conn.closed = false ∧ ∃ conn, s.offer exotic r ev events = ({ s with conn := conn }, true)) ∨
      ∃ dropped, s.offer exotic r ev events = ({ s with dropped := dropped }, false) := by
  rcases enqueueChange_cases s.conn r.source r.shapeName marshals with
    ⟨opened, conn, accepted, -⟩ | refused
  · exact .inl ⟨opened, conn, by simp [offer, accepted, marshals, due]⟩
  · exact .inr ⟨s.dropped ++ due r (ev :: events), by simp only [offer, refused]⟩

/-- Once something was dropped, the connection is closed or about to be. -/
def Parted (s : State) : Prop := s.dropped ≠ [] → s.conn.closed = true ∨ s.parting = true

theorem noHole_of_parted {e : Ev} (parted : Parted s) (clean : Clean exotic s e = true) :
    NoHole exotic s e := by
  rintro ⟨r, ev⟩ here puts d lost -
  exfalso
  have dropped : s.dropped ≠ [] := List.ne_nil_of_mem lost
  have staying : s.parting = false := by
    cases parting : s.parting with
    | false => rfl
    | true => simp [Clean, Option.mem_def.1 here, parting, puts] at clean
  rcases enqueueChange_cases s.conn r.source r.shapeName puts.1 with ⟨opened, -⟩ | refused
  · rcases parted dropped with closed | parting
    · simp [opened] at closed
    · simp [staying] at parting
  · have accepted := puts.2
    rw [refused] at accepted
    cases accepted

theorem marshals_of_clean {e : Ev} {r : Applied} {ev : Event} (clean : Clean exotic s e = true)
    (here : handed s e = some (r, ev)) : ev.row.marshals exotic = true := by
  simp only [Clean, here, Bool.and_eq_true] at clean
  exact clean.1

/-- A step that drops nothing, and lets a `SendBye` be due until it is called. -/
theorem Parted.mono (parted : Parted s) (dropped : t.dropped = s.dropped)
    (closed : s.conn.closed = true → t.conn.closed = true)
    (parting : s.parting = true → t.conn.closed = true ∨ t.parting = true) : Parted t := by
  intro lost
  rcases parted (dropped ▸ lost) with gone | leaving
  · exact .inl (closed gone)
  · exact parting leaving

theorem closed_enqueue {conn : Conn Sent} (m : Sent) (closed : conn.closed = true) :
    (conn.enqueue m).1.closed = true := by
  simp [Conn.enqueue, closed]

theorem parted_run (parted : Parted s) (clean : Clean exotic s .run = true)
    (stepped : runStep exotic s = some t) : Parted t := by
  cases work : s.work with
  | idle => simp [runStep, work] at stepped
  | delivering results =>
      cases results with
      | nil =>
          simp only [runStep, work] at stepped
          cases stepped
          exact parted.mono rfl id fun leaving =>
            .inr (by simpa [State.parting, work, Work.parts] using leaving)
      | cons r results =>
          simp only [runStep, work] at stepped
          cases stepped
          have onward : (if r.shapeName ∈ s.shapes then Work.sending r results
              else .delivering results).parts = false := by split <;> rfl
          refine parted.mono rfl id fun leaving => .inr ?_
          simp only [State.parting, work, Work.parts, Bool.false_or] at leaving
          simp only [State.parting, onward, Bool.false_or, leaving]
  | sending r results =>
      cases events : r.events with
      | nil =>
          simp only [runStep, work, events] at stepped
          cases stepped
          exact parted.mono rfl id fun leaving =>
            .inr (by simpa [State.parting, work, Work.parts] using leaving)
      | cons ev events' =>
          have marshals : ev.row.marshals exotic = true :=
            marshals_of_clean clean (r := r) (by simp [handed, work, events])
          simp only [runStep, work, events] at stepped
          rcases s.offer_cases r events' marshals with ⟨opened, conn, accepted⟩ | ⟨dropped, refused⟩
          · rw [accepted] at stepped
            cases stepped
            refine parted.mono rfl (fun closed => ?_) fun leaving => .inr ?_
            · simp [opened] at closed
            · simpa [State.parting, work, Work.parts] using leaving
          · rw [refused] at stepped
            cases stepped
            exact fun _ => .inr rfl
  | refused results =>
      simp only [runStep, work] at stepped
      cases stepped
      exact fun _ => .inl (Conn.sendBye_closed _ _)

theorem parted_session (parted : Parted s) (clean : Clean exotic s .session = true)
    (stepped : sessionStep exotic s = some t) : Parted t := by
  cases sub : s.sub with
  | idle => simp [sessionStep, sub] at stepped
  | replaying r =>
      cases events : r.events with
      | nil =>
          simp only [sessionStep, sub, events] at stepped
          cases stepped
          exact parted.mono rfl id fun leaving =>
            .inr (by simpa [State.parting, sub, Sub.parts] using leaving)
      | cons ev events' =>
          have marshals : ev.row.marshals exotic = true :=
            marshals_of_clean clean (r := r) (by simp [handed, sub, events])
          simp only [sessionStep, sub, events] at stepped
          rcases s.offer_cases r events' marshals with ⟨opened, conn, accepted⟩ | ⟨dropped, refused⟩
          · rw [accepted] at stepped
            cases stepped
            refine parted.mono rfl (fun closed => ?_) fun leaving => .inr ?_
            · simp [opened] at closed
            · simpa [State.parting, sub, Sub.parts] using leaving
          · rw [refused] at stepped
            cases stepped
            exact fun _ => .inr (by simp [State.parting, Sub.parts])
  | refused =>
      simp only [sessionStep, sub] at stepped
      cases stepped
      exact fun _ => .inl (Conn.sendBye_closed _ _)

theorem parted_step {e : Ev} (parted : Parted s) (clean : Clean exotic s e = true)
    (stepped : step exotic s e = some t) : Parted t := by
  cases e with
  | dispatch results =>
      simp only [step] at stepped
      split at stepped
      · next work =>
          cases stepped
          exact parted.mono rfl id fun leaving =>
            .inr (by simpa [State.parting, work, Work.parts] using leaving)
      · cases stepped
  | replay r =>
      simp only [step] at stepped
      split at stepped
      · next sub =>
          cases stepped
          exact parted.mono rfl id fun leaving =>
            .inr (by simpa [State.parting, sub, Sub.parts] using leaving)
      · cases stepped
  | run => exact parted_run parted clean stepped
  | session => exact parted_session parted clean stepped
  | members shapes =>
      cases stepped
      exact parted.mono rfl id .inr
  | other m =>
      simp only [step] at stepped
      split at stepped
      · cases stepped
      · cases stepped
        exact parted.mono rfl (closed_enqueue m) .inr
  | disconnect reason =>
      cases stepped
      exact fun _ => .inl (Conn.sendBye_closed _ _)
  | pump =>
      obtain ⟨conn, pumped, rfl⟩ := Option.map_eq_some_iff.1 stepped
      exact parted.mono rfl (fun closed => (Conn.pump_spec pumped).2.trans closed) .inr
  | close =>
      cases stepped
      exact fun _ => .inl rfl

/-- **A connection's change sequence has no holes** when every row can be marshalled and a
refusal is followed by its `SendBye` before another change gets in. -/
theorem noHole_of_clean {s : State} (initial : (machine exotic).init s) {es : List Ev}
    (clean : (machine exotic).Meets (fun s e => Clean exotic s e = true) s es) :
    (machine exotic).Meets (NoHole exotic) s es :=
  clean.imp (I := Parted) (fun _ _ _ parted here stepped => parted_step parted here stepped)
    (fun _ _ _ parted here _ => noHole_of_parted parted here)
    fun lost => absurd initial.dropped lost

namespace Measures

/-- No row here has a value that it is asked for. -/
def others : Value → Option Json := fun _ => none

def key : String := streamKey "measures" ""

def measure (sensor : String) (value : Value) : Row :=
  KeyMap.ofList [("sensor", .string sensor), ("value", value)]

def message (offset : Int) (sensor : String) : Sent :=
  ⟨.change "measures" offset .insert (measure sensor .null), some key⟩

def events (offsets : List Int) : Applied :=
  ⟨key, "measures", offsets.map fun offset => ⟨offset, .insert, "measures", measure "a" .null⟩⟩

/-- A client with room for one message: the second change is refused, and the third comes
after the `SendBye`. -/
def slow : List Ev :=
  List.flatten [[.members {"measures"}, .dispatch [events [1]]], List.replicate 4 .run,
    [.dispatch [events [2]]], List.replicate 4 .run, [.pump, .dispatch [events [3]]],
    List.replicate 4 .run]

theorem noHole_of_clean_slow :
    ((machine others).run ⟨.new 1, ∅, .idle, .idle, []⟩ slow).map (fun s =>
        (s.conn.accepted, s.dropped)) = some ([message 1 "a"], [(key, 2), (key, 3)]) ∧
      (machine others).Meets (NoHole others) ⟨.new 1, ∅, .idle, .idle, []⟩ slow :=
  ⟨by decide +kernel, noHole_of_clean ⟨rfl, rfl, rfl⟩ (by decide +kernel)⟩

def measures : Definition Unit :=
  { name := "measures", schema := "", table := "", primaryKey := ["sensor"],
    bind := some fun _ => .ok (.notNull "sensor") }

/-- The snapshot has a row with a NaN. -/
def stream : Instance Unit :=
  ((Instance.start measures (.notNull "sensor")).loadSnapshot 5
    [some (measure "a" (.float64 .nan))]).1

/-- One session, which has resumed at offset 1. -/
def engine : Engine Unit where
  registry _ := some measures
  claimsKey _ := ""
  exotic := others
  streams := AList.singleton key stream
  sessions := KeyMap.ofList [("c1", { conn := .new 64, claims := (), shapes := {"measures"} })]

def deleted : Change :=
  { schema := "public", table := "measures", op := .delete, commitLSN := 10
    old := some (KeyMap.ofList [("sensor", .string "a")]) }

def inserted : Change :=
  { schema := "public", table := "measures", op := .insert, commitLSN := 20
    new := some (measure "b" .null) }

/-- The resume loop has nothing to send; then the two changes are dispatched. -/
def resumed : List Ev :=
  List.flatten [[.replay ⟨key, "measures", (stream.log.after 1).getD []⟩, .session,
    .members {"measures"}, .dispatch (emissions deleted engine.streams.entries)],
    List.replicate 4 .run,
    [.dispatch (emissions inserted (engine.dispatchChange deleted).streams.entries)],
    List.replicate 4 .run]

/-- The row that leaves the shape is the cached one, which cannot be marshalled: the delete
is never sent, and the next change is. -/
theorem delete_of_nan_dropped :
    ((machine others).run ⟨.new 64, ∅, .idle, .idle, []⟩ resumed).map (fun s =>
        (s.conn.accepted, s.dropped)) = some ([message 3 "b"], [(key, 2)]) ∧
      ¬ (machine others).Meets (NoHole others) ⟨.new 64, ∅, .idle, .idle, []⟩ resumed ∧
      (((engine.dispatchChange deleted).dispatchChange inserted).sessions.lookup "c1").map
        (fun s => (s.conn.queue, s.conn.closed)) = some ([message 3 "b"], false) :=
  ⟨by decide +kernel, by decide +kernel, by decide +kernel⟩

-- every row here can be marshalled: a subscribed session asks again, its resume loop is
-- refused, and `dispatchChange` gets its change in before the `SendBye`
example : ¬ (machine others).Meets (NoHole others) ⟨.new 1, {"measures"}, .idle, .idle, []⟩
    [.replay (events [1, 2]), .session, .session, .pump, .dispatch [events [3]], .run, .run,
      .session] := by
  decide +kernel

end Measures

end Tether.Holes
