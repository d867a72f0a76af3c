/-
# Tether.Engine.Live — the engine while clients subscribe

The goroutines of `engine.go` that share `e.streams` and the sessions: one per client,
which runs `serveWS`, `handleSubscribe` and `subscribeShape`, and the one of `Run`, which
fans changes out and recovers from slot lag.  Both are cut into the steps between which
the source holds no lock, so that a step reads or writes shared state once.

A stream is a pointer to an instance.  `heap` holds the instances, an address is an index
into it, and nothing is ever taken out of it.  What `snapshot.Take` returns and the orders
in which Go iterates over its maps come from outside.

`SendBye` is called in the goroutine that gives up a client, after `Enqueue` has refused a
message, and returns when the connection is shut down, by this call or by one before it:
until the event `shut` the caller waits.

`trace` and `Client.request` are ghosts: what was served, refused, delivered and subscribed
so far, oldest first, and how things stood when a session's last request came.
-/
import Tether.Engine.Subscribe

namespace Tether.Live

open Lib Wal Shape Transport

set_option autoImplicit false

def codeUnknownShape : String := "unknown_shape"
def reasonIdleClient : String := "idle_client"

/-- `ErrSlotLagExceeded.Error()`. -/
def slotLagExceeded : String := "tether: replication slot lag exceeded"

/-- What `New` and `Shape` fix; `exotic` is what `json.Marshal` makes of the values that the
model leaves open, and `marshalError` the text of its error. -/
structure Setup (C : Type) where
  registry : String → Option (Definition C)
  claimsKey : C → String
  clientBuffer : Int := 64
  exotic : Value → Option Json
  marshalError : Multiset Row → String
  named : ∀ name d, registry name = some d → d.name = name

/-- An engine with one shape. -/
def Setup.single {C : Type} (d : Definition C) (claimsKey : C → String) : Setup C where
  registry name := if name = d.name then some d else none
  claimsKey := claimsKey
  exotic _ := none
  marshalError _ := "json: unsupported value: NaN"
  named name d' registered := by
    split at registered
    · next same =>
        cases registered
        exact same.symm
    · cases registered

/-- Where the rows of a message were read. -/
inductive Origin where
  | stream (a : Nat)
  | database
  deriving DecidableEq

/-- A message that `subscribeShape` put into the buffer of client `client`.  `halted` are
the instances that were halted when the subscribe request came. -/
structure Served (C : Type) where
  client : Nat
  claims : C
  defn : Definition C
  message : Message
  origin : Origin
  halted : List Nat

inductive Note (C : Type) where
  | served (v : Served C)
  /-- The `shape_halted` of a request that failed was put into a buffer. -/
  | failed (j : Nat) (text : String)
  /-- A change message that `dispatchChange` put into a buffer. -/
  | delivered (j : Nat) (source : String) (offset : Int)
  /-- `addShape`, after a subscription served from `a`; `halted` as above. -/
  | subscribed (j : Nat) (a : Nat) (halted : List Nat)
  /-- A `must_resnapshot` of the broadcast was put into a buffer. -/
  | resnapshot (j : Nat)

/-- The client that the note is about. -/
def Note.client {C : Type} : Note C → Nat
  | .served v => v.client
  | .failed j _ | .delivered j _ _ | .subscribed j _ _ | .resnapshot j => j

/-- Where a session's goroutine is.  The definition is that of the shape it is at. -/
inductive Phase (C : Type) where
  | idle
  | next
  | resume (d : Definition C) (resumeAt : Int)
  | found (d : Definition C) (resumeAt : Int) (a : Nat)
  | refused (d : Definition C)
  | replay (d : Definition C) (a : Nat) (events : List Event)
  | offset (d : Definition C) (a : Nat) (offset : Int)
  | rows (d : Definition C) (a : Nat) (offset : Int) (rows : Multiset Row)
  | bound (d : Definition C) (inst : Instance C)
  | loaded (d : Definition C) (inst : Instance C) (lsn : LSN) (rows : List Row)
  | stored (d : Definition C) (a : Nat) (lsn : LSN) (rows : List Row)
  | snapshot (d : Definition C) (a : Nat) (lsn : LSN) (rows : List Row) (offset : Int)
  | served (d : Definition C) (a : Nat)
  /-- `Enqueue` has refused a message. -/
  | slow
  /-- In `SendBye`. -/
  | parting

/-- How things stood when a subscribe request came: the shapes it asked for, the instances
and keys that were halted, and how much had been noted about the client. -/
structure Request where
  asked : List String := []
  halted : List Nat := []
  stale : Finset String := ∅
  begun : Nat := 0

/-- `listed` says that the session is in `e.sessions`; `names` are the shapes that are left
of the subscribe request under way. -/
structure Client (C : Type) where
  session : Session C
  listed : Bool := true
  phase : Phase C := .idle
  names : List String := []
  request : Request := {}

/-- One `dispatchChange`: `streams` are still to be applied. -/
structure Round where
  change : Change
  listed : List Nat
  streams : List (String × Nat)
  results : List Applied := []

/-- What the goroutine of `Run` goes on with after a `SendBye`. -/
inductive Rest where
  | idle
  | delivering (todo : List (Nat × Applied))
  | broadcasting (left : List Nat)

/-- Where the goroutine of `Run` is. -/
inductive Work where
  | idle
  | applying (r : Round)
  | appending (r : Round) (key : String) (a : Nat) (m : Move)
  | notifying (r : Round) (shapeName text : String) (left : List Nat)
  | telling (r : Round) (shapeName text : String) (j : Nat) (left : List Nat)
  | delivering (todo : List (Nat × Applied))
  | sending (j : Nat) (result : Applied) (todo : List (Nat × Applied))
  | broadcasting (left : List Nat)
  /-- About to call `SendBye` for client `j`. -/
  | leaving (j : Nat) (reason : String) (rest : Rest)
  /-- In `SendBye`. -/
  | parting (j : Nat) (rest : Rest)

def Rest.work : Rest → Work
  | .idle => .idle
  | .delivering todo => .delivering todo
  | .broadcasting left => .broadcasting left

/-- The sessions that the broadcast of a recovery has still to deal with. -/
def Work.unwarned : Work → Option (List Nat)
  | .broadcasting left | .parting _ (.broadcasting left) => some left
  | .leaving j _ (.broadcasting left) => some (j :: left)
  | _ => none

structure State (C : Type) where
  heap : List (Instance C) := []
  streams : KeyMap String Nat := ∅
  clients : List (Client C) := []
  work : Work := .idle
  trace : List (Note C) := []

inductive Ev (C : Type) where
  | connect (claims : C)
  | hello (j : Nat) (resume : KeyMap String Int)
  /-- A subscribe message; `pool` is the error of `ensurePool`. -/
  | subscribe (j : Nat) (names : List String) (pool : Option String)
  | session (j : Nat)
  | take (j : Nat) (lsn : LSN) (rows : List Row)
  | takeFails (j : Nat) (text : String)
  /-- `dispatchChange` copies streams and sessions, in the orders it finds them. -/
  | copy (ch : Change) (order : List String) (listed : List Nat)
  /-- `broadcastMustResnapshot` copies the sessions. -/
  | recover (listed : List Nat)
  | run
  | pump (j : Nat)
  /-- The shutdown of a connection is over. -/
  | shut (j : Nat)
  | sweep (j : Nat)
  | leave (j : Nat)

/-- The client whose goroutine takes the step. -/
def Ev.actor {C : Type} : Ev C → Option Nat
  | .subscribe j _ _ | .session j | .take j _ _ | .takeFails j _ => some j
  | _ => none

section Steps

variable {C : Type} (u : Setup C)

def Setup.key (d : Definition C) (claims : C) : String := streamKey d.name (u.claimsKey claims)

namespace Client

def withConn (c : Client C) (conn : Conn Sent) : Client C :=
  { c with session := { c.session with conn := conn } }

/-- `handleSubscribe` returns an error, and `serveWS` sends it. -/
def fail (c : Client C) (j : Nat) (text : String) : Client C × List (Note C) :=
  ({ c.withConn (sendErr c.session.conn codeHalted text "") with phase := .idle, names := [] },
    if (c.session.conn.enqueue ⟨.error codeHalted text "", none⟩).2 then [.failed j text] else [])

/-- `NewInstance`, for a snapshot of its own. -/
def bind (c : Client C) (j : Nat) (d : Definition C) : Client C × List (Note C) :=
  match Instance.new d c.session.claims with
  | .error err => c.fail j err.text
  | .ok inst => ({ c with phase := .bound d inst }, [])

/-- A message for client `j`, whose goroutine is at `d`, put into its buffer. -/
def note (c : Client C) (j : Nat) (d : Definition C) (message : Message) (origin : Origin) :
    Note C :=
  .served ⟨j, c.session.claims, d, message, origin, c.request.halted⟩

/-- Marshal a snapshot and enqueue it. -/
def sendSnapshot (c : Client C) (j : Nat) (d : Definition C) (a : Nat) (lsn : LSN) (offset : Int)
    (rows : Multiset Row) (origin : Origin) : Client C × List (Note C) :=
  if ∀ row ∈ rows, row.marshals u.exotic = true then
    let message := .snapshot d.name lsn offset rows
    match c.session.conn.enqueue ⟨message, some (u.key d c.session.claims)⟩ with
    | (conn, true) => ({ c.withConn conn with phase := .served d a }, [c.note j d message origin])
    | (conn, false) => ({ c.withConn conn with phase := .slow }, [])
  else c.fail j (u.marshalError rows)

/-- Enqueue a replayed event. -/
def sendReplay (c : Client C) (j : Nat) (d : Definition C) (a : Nat) (ev : Event)
    (events : List Event) : Client C × List (Note C) :=
  match enqueueChange u.exotic c.session.conn (u.key d c.session.claims) d.name ev with
  | (conn, true) =>
      ({ c.withConn conn with phase := .replay d a events },
        if ev.row.marshals u.exotic then
          [c.note j d (.change d.name ev.offset ev.op ev.row) (.stream a)]
        else [])
  | (conn, false) => ({ c.withConn conn with phase := .slow }, [])

/-- The next step of a session's goroutine, `Take` and the store apart. -/
def next (heap : List (Instance C)) (streams : KeyMap String Nat) (j : Nat) (c : Client C) :
    Option (Client C × List (Note C)) :=
  match c.phase with
  | .idle | .bound _ _ | .loaded _ _ _ _ => none
  | .next =>
      match c.names with
      | [] => some ({ c with phase := .idle }, [])
      | name :: names =>
          match u.registry name with
          | none =>
              some ({ c.withConn (sendErr c.session.conn codeUnknownShape "unknown shape" name) with
                names := names }, [])
          | some d =>
              let resumeAt := (c.session.resume.lookup d.name).getD 0
              some ({ c with names := names, phase := .resume d resumeAt }, [])
  | .resume d resumeAt =>
      match streams.lookup (u.key d c.session.claims) with
      | some a => some ({ c with phase := .found d resumeAt a }, [])
      | none => some (c.bind j d)
  | .found d resumeAt a => do
      let inst ← heap[a]?
      if 0 < resumeAt then
        match inst.log.after resumeAt with
        | some events => some ({ c with phase := .replay d a events }, [])
        | none => some ({ c with phase := .refused d }, [])
      else if resumeAt = 0 then
        some ({ c with phase := .offset d a inst.log.lastOffset }, [])
      else some (c.bind j d)
  | .refused d =>
      let conn :=
        sendErr c.session.conn Subscribe.codeMustResnapshot "resume offset not available" d.name
      some ((c.withConn conn).bind j d)
  | .replay d a [] => some ({ c with phase := .served d a }, [])
  | .replay d a (ev :: events) => some (c.sendReplay u j d a ev events)
  | .offset d a offset => do
      let inst ← heap[a]?
      some ({ c with phase := .rows d a offset inst.materialized }, [])
  | .rows d a offset rows => some (c.sendSnapshot u j d a 0 offset rows (.stream a))
  | .stored d a lsn rows => do
      let inst ← heap[a]?
      some ({ c with phase := .snapshot d a lsn rows inst.log.lastOffset }, [])
  | .snapshot d a lsn rows offset => some (c.sendSnapshot u j d a lsn offset rows .database)
  | .served d a =>
      some ({ c with
        session := { c.session with shapes := insert d.name c.session.shapes }
        phase := .next }, [.subscribed j a c.request.halted])
  | .slow =>
      let conn := c.session.conn.sendBye reasonSlowClient
      some ({ c.withConn conn with phase := .parting }, [])
  | .parting => if c.session.conn.closing then none else some (c.fail j "tether: slow client")

/-- `Take` returned: the rows are loaded into the new instance, which no one else has. -/
def take (c : Client C) (j : Nat) (lsn : LSN) (rows : List Row) :
    Option (Client C × List (Note C)) :=
  match c.phase with
  | .bound d inst =>
      match inst.loadSnapshot lsn (rows.map some) with
      | (_, .error err) => some (c.fail j err.text)
      | (inst, .ok ()) => some ({ c with phase := .loaded d inst lsn rows }, [])
  | _ => none

end Client

namespace State

variable (s : State C)

def setClient (j : Nat) (c : Client C) : State C := { s with clients := s.clients.set j c }

/-- A step of a session's goroutine. -/
def acted (j : Nat) (acted : Client C × List (Note C)) : State C :=
  { s.setClient j acted.1 with trace := s.trace ++ acted.2 }

/-- The instances whose log refuses appends. -/
def halted : List Nat :=
  (List.range s.heap.length).filter fun a => (s.heap[a]?).any fun inst => inst.log.halted.isSome

/-- The keys whose stream refuses appends. -/
def stale : Finset String :=
  s.streams.keys.filter fun key => (s.streams.lookup key).any fun a => a ∈ s.halted

/-- What was noted about client `j`. -/
def about (j : Nat) : List (Note C) := s.trace.filter fun n => n.client = j

/-- A subscribe request of client `j` comes. -/
def request (j : Nat) (names : List String) : Request :=
  ⟨names, s.halted, s.stale, (s.about j).length⟩

/-- The sessions in `e.sessions`. -/
def listed : List Nat :=
  (List.range s.clients.length).filter fun j => (s.clients[j]?).any Client.listed

/-- `e.streams[key] = inst`. -/
def store (j : Nat) (c : Client C) (d : Definition C) (inst : Instance C) (lsn : LSN)
    (rows : List Row) : State C :=
  { s.setClient j { c with phase := .stored d s.heap.length lsn rows } with
    heap := s.heap ++ [inst]
    streams := s.streams.insert (u.key d c.session.claims) s.heap.length }

/-- The streams as `dispatchChange` iterates over them. -/
def copied (order : List String) : List (String × Nat) :=
  order.filterMap fun key => (s.streams.lookup key).map fun a => (key, a)

def sessionStep (j : Nat) : Option (State C) := do
  let c ← s.clients[j]?
  match c.phase with
  | .loaded d inst lsn rows => some (s.store u j c d inst lsn rows)
  | _ =>
      let acted ← c.next u s.heap s.streams j
      some (s.acted j acted)

/-- Both maps are emptied while `e.mu` is held. -/
def clear : State C :=
  { s with
    streams := ∅
    clients := s.clients.map fun c =>
      if c.listed then { c with session := { c.session with shapes := ∅, resume := ∅ } } else c
    work := .idle }

/-- After an error of `Apply` on the stream of `key`. -/
def afterError (r : Round) (key : String) (err : ShapeError) : Work :=
  if halts err then .notifying r (shapeNameOf key) err.text r.listed else .applying r

/-- The next step of `dispatchChange` or of the recovery. -/
def runStep : Option (State C) :=
  match s.work with
  | .idle => none
  | .applying r =>
      match r.streams with
      | [] =>
          some { s with
            work := .delivering (r.listed.flatMap fun j => r.results.map fun res => (j, res)) }
      | (key, a) :: streams => do
          let inst ← s.heap[a]?
          let r := { r with streams := streams }
          match inst.applyBegin r.change with
          | (inst, .error err) =>
              some { s with heap := s.heap.set a inst, work := afterError r key err }
          | (inst, .ok none) => some { s with heap := s.heap.set a inst, work := .applying r }
          | (inst, .ok (some m)) =>
              some { s with heap := s.heap.set a inst, work := .appending r key a m }
  | .appending r key a m => do
      let inst ← s.heap[a]?
      match inst.log.append m.op inst.defn.table m.row with
      | .error err => some { s with work := afterError r key err }
      | .ok (ev, log) =>
          some { s with
            heap := s.heap.set a { inst with log := log }
            work := .applying { r with
              results := r.results ++ [⟨key, shapeNameOf key, [ev]⟩] } }
  | .notifying r _ _ [] => some { s with work := .applying r }
  | .notifying r shapeName text (j :: left) => do
      let c ← s.clients[j]?
      some { s with
        work := if shapeName ∈ c.session.shapes then .telling r shapeName text j left
          else .notifying r shapeName text left }
  | .telling r shapeName text j left => do
      let c ← s.clients[j]?
      let conn := sendErr c.session.conn codeHalted text shapeName
      some { s.setClient j (c.withConn conn) with work := .notifying r shapeName text left }
  | .delivering [] => some { s with work := .idle }
  | .delivering ((j, result) :: todo) => do
      let c ← s.clients[j]?
      some { s with
        work := if result.shapeName ∈ c.session.shapes then .sending j result todo
          else .delivering todo }
  | .sending j result todo =>
      match result.events with
      | [] => some { s with work := .delivering todo }
      | ev :: events => do
          let c ← s.clients[j]?
          match enqueueChange u.exotic c.session.conn result.source result.shapeName ev with
          | (conn, true) =>
              some { s.setClient j (c.withConn conn) with
                work := .sending j { result with events := events } todo
                trace := s.trace ++
                  if ev.row.marshals u.exotic then [.delivered j result.source ev.offset] else [] }
          | (conn, false) =>
              some { s.setClient j (c.withConn conn) with
                work := .leaving j reasonSlowClient (.delivering todo) }
  | .broadcasting [] => some s.clear
  | .broadcasting (j :: left) => do
      let c ← s.clients[j]?
      let message := .error Subscribe.codeMustResnapshot slotLagExceeded ""
      match c.session.conn.enqueue ⟨message, none⟩ with
      | (conn, true) =>
          some { s.setClient j (c.withConn conn) with
            work := .broadcasting left
            trace := s.trace ++ [.resnapshot j] }
      | (conn, false) =>
          some { s.setClient j (c.withConn conn) with
            work := .leaving j reasonSlowClient (.broadcasting left) }
  | .leaving j reason rest => do
      let c ← s.clients[j]?
      some { s.setClient j (c.withConn (c.session.conn.sendBye reason)) with
        work := .parting j rest }
  | .parting j rest => do
      let c ← s.clients[j]?
      if c.session.conn.closing then none else some { s with work := rest.work }

end State

def step (s : State C) : Ev C → Option (State C)
  | .connect claims =>
      some { s with clients := s.clients ++ [{ session := ⟨.new u.clientBuffer, claims, ∅, ∅⟩ }] }
  | .hello j resume => do
      let c ← s.clients[j]?
      match c.phase with
      | .idle => some (s.setClient j { c with session := { c.session with resume := resume } })
      | _ => none
  | .subscribe j names pool => do
      let c ← s.clients[j]?
      match c.phase, pool with
      | .idle, some text =>
          some (s.acted j ({ c with request := s.request j names }.fail j text))
      | .idle, none =>
          some (s.setClient j
            { c with phase := .next, names := names, request := s.request j names })
      | _, _ => none
  | .session j => s.sessionStep u j
  | .take j lsn rows => do
      let c ← s.clients[j]?
      let acted ← c.take j lsn rows
      some (s.acted j acted)
  | .takeFails j text => do
      let c ← s.clients[j]?
      match c.phase with
      | .bound _ _ => some (s.acted j (c.fail j text))
      | _ => none
  | .copy ch order listed =>
      match s.work with
      | .idle =>
          if order.Nodup ∧ order.toFinset = s.streams.keys ∧ listed.Perm s.listed then
            some { s with
              work := .applying { change := ch, listed := listed, streams := s.copied order } }
          else none
      | _ => none
  | .recover listed =>
      match s.work with
      | .idle => if listed.Perm s.listed then some { s with work := .broadcasting listed } else none
      | _ => none
  | .run => s.runStep u
  | .pump j => do
      let c ← s.clients[j]?
      let conn ← c.session.conn.pump
      some (s.setClient j (c.withConn conn))
  | .shut j => do
      let c ← s.clients[j]?
      let conn ← c.session.conn.shut
      some (s.setClient j (c.withConn conn))
  | .sweep j => do
      let c ← s.clients[j]?
      match s.work, c.listed with
      | .idle, true =>
          some { s.setClient j { c with listed := false } with
            work := .leaving j reasonIdleClient .idle }
      | _, _ => none
  | .leave j => do
      let c ← s.clients[j]?
      match c.phase with
      | .idle => some (s.setClient j { c.withConn c.session.conn.close with listed := false })
      | _ => none

def machine : Machine (State C) (Ev C) := ⟨(· = {}), step u⟩

end Steps

/-! ## What a step can do -/

variable {C : Type} {u : Setup C} {s t : State C}

/-- What `Apply` never changes of an instance, and what it only adds to. -/
structure Evolves (inst inst' : Instance C) : Prop where
  defn : inst'.defn = inst.defn
  filter : inst'.filter = inst.filter
  snapshotLSN : inst'.snapshotLSN = inst.snapshotLSN
  hasSnapshot : inst'.hasSnapshot = inst.hasSnapshot
  events : inst.log.events <+: inst'.log.events
  halted : inst.log.halted.isSome → inst'.log.halted.isSome

theorem Evolves.refl (inst : Instance C) : Evolves inst inst :=
  ⟨rfl, rfl, rfl, rfl, List.prefix_refl _, id⟩

theorem Evolves.trans {a b c : Instance C} (first : Evolves a b) (second : Evolves b c) :
    Evolves a c where
  defn := second.defn.trans first.defn
  filter := second.filter.trans first.filter
  snapshotLSN := second.snapshotLSN.trans first.snapshotLSN
  hasSnapshot := second.hasSnapshot.trans first.hasSnapshot
  events := first.events.trans second.events
  halted halted := second.halted (first.halted halted)

theorem evolves_applyBegin (inst : Instance C) (ch : Change) :
    Evolves inst (inst.applyBegin ch).1 := by
  rcases inst.applyBegin_cases ch with ⟨fp, log, after, events, halted, -⟩ | ⟨fp, m, after, -, -⟩
  · rw [after]
    exact ⟨rfl, rfl, rfl, rfl, by simp [events], halted⟩
  · rw [after]
    exact ⟨rfl, rfl, rfl, rfl, List.prefix_refl _, id⟩

theorem evolves_append {inst : Instance C} {op : EventOp} {row : Row} {ev : Event} {log : Log}
    (appended : inst.log.append op inst.defn.table row = .ok (ev, log)) :
    Evolves inst { inst with log := log } := by
  unfold Log.append at appended
  split at appended
  · cases appended
  · cases appended
    exact ⟨rfl, rfl, rfl, rfl, List.prefix_append _ _, id⟩

/-- Every instance of `heap` is still there in `heap'`. -/
def Grows (heap heap' : List (Instance C)) : Prop :=
  ∀ (a : Nat) (inst : Instance C), heap[a]? = some inst →
    ∃ inst', heap'[a]? = some inst' ∧ Evolves inst inst'

theorem Grows.refl (heap : List (Instance C)) : Grows heap heap :=
  fun _ inst found => ⟨inst, found, .refl inst⟩

theorem Grows.trans {a b c : List (Instance C)} (first : Grows a b) (second : Grows b c) :
    Grows a c := by
  intro i inst found
  obtain ⟨inst', found', evolves⟩ := first i inst found
  obtain ⟨inst'', found'', evolves'⟩ := second i inst' found'
  exact ⟨inst'', found'', evolves.trans evolves'⟩

theorem grows_set {heap : List (Instance C)} {a : Nat} {inst inst' : Instance C}
    (found : heap[a]? = some inst) (evolves : Evolves inst inst') :
    Grows heap (heap.set a inst') := by
  intro i old here
  by_cases same : a = i
  · subst same
    cases found.symm.trans here
    exact ⟨inst', by simp [(List.getElem?_eq_some_iff.1 found).1], evolves⟩
  · exact ⟨old, by rw [List.getElem?_set_ne same, here], .refl old⟩

theorem grows_append (heap : List (Instance C)) (inst : Instance C) :
    Grows heap (heap ++ [inst]) := by
  intro i old here
  exact ⟨old, by rw [List.getElem?_append_left (List.getElem?_eq_some_iff.1 here).1, here],
    .refl old⟩

theorem Grows.length_le {heap heap' : List (Instance C)} (grows : Grows heap heap') :
    heap.length ≤ heap'.length := by
  by_contra shrunk
  have inside : heap'.length < heap.length := by omega
  obtain ⟨inst', found, -⟩ := grows heap'.length _ (List.getElem?_eq_getElem inside)
  have bound := (List.getElem?_eq_some_iff.1 found).1
  omega

/-- What a client's own goroutine goes by. -/
def Client.control (c : Client C) : C × Phase C × List String × Request :=
  (c.session.claims, c.phase, c.names, c.request)

theorem map_control_set {clients : List (Client C)} {j : Nat} {c c' : Client C}
    (found : clients[j]? = some c) (same : c'.control = c.control) :
    (clients.set j c').map Client.control = clients.map Client.control := by
  obtain ⟨inside, rfl⟩ := List.getElem?_eq_some_iff.1 found
  rw [List.map_set, same, ← List.map_set, List.set_getElem_self]

/-- Notes about what the goroutine of `Run` sends. -/
def Note.background : Note C → Prop
  | .delivered _ _ _ | .resnapshot _ => True
  | .served _ | .failed _ _ | .subscribed _ _ _ => False

/-- A step that leaves the goroutines of all clients where they are. -/
structure Background (s t : State C) : Prop where
  heap : Grows s.heap t.heap
  streams : t.streams = s.streams ∨ s.work = .broadcasting [] ∧ t.streams = ∅
  controls : t.clients.map Client.control = s.clients.map Client.control
  trace : ∃ notes, t.trace = s.trace ++ notes ∧ ∀ n ∈ notes, n.background

theorem Background.control (quiet : Background s t) {c : Client C} (member : c ∈ t.clients) :
    ∃ c' ∈ s.clients, c'.control = c.control := by
  have mapped : c.control ∈ s.clients.map Client.control :=
    quiet.controls ▸ List.mem_map_of_mem member
  exact List.mem_map.1 mapped

theorem Background.client (quiet : Background s t) {j : Nat} {c : Client C}
    (found : t.clients[j]? = some c) :
    ∃ c', s.clients[j]? = some c' ∧ c'.control = c.control := by
  have mapped := congrArg (fun l => l[j]?) quiet.controls
  simp only [List.getElem?_map, found, Option.map_some] at mapped
  exact Option.map_eq_some_iff.1 mapped.symm

/-- The goroutine is at `d` and goes on to a snapshot of its own; `held` is the stream that
it finds. -/
def Phase.Takes (held : Option Nat) (d : Definition C) : Phase C → Prop
  | .resume d' _ => d' = d ∧ held = none
  | .found d' resumeAt _ => d' = d ∧ resumeAt < 0
  | .refused d' => d' = d
  | _ => False

/-- The next steps of a session's goroutine. -/
inductive Client.Next (u : Setup C) (heap : List (Instance C)) (streams : KeyMap String Nat)
    (j : Nat) (c : Client C) : Client C → List (Note C) → Prop where
  | finish : c.phase = .next → c.names = [] → Next u heap streams j c { c with phase := .idle } []
  | unknown {name : String} {names : List String} (conn : Conn Sent) : c.phase = .next →
      c.names = name :: names → u.registry name = none →
      Next u heap streams j c { c.withConn conn with names := names } []
  | resume {name : String} {names : List String} {d : Definition C} {resumeAt : Int} :
      c.phase = .next → c.names = name :: names → u.registry name = some d →
      Next u heap streams j c { c with names := names, phase := .resume d resumeAt } []
  | found {d : Definition C} {resumeAt : Int} {a : Nat} : c.phase = .resume d resumeAt →
      streams.lookup (u.key d c.session.claims) = some a →
      Next u heap streams j c { c with phase := .found d resumeAt a } []
  | bound {d : Definition C} {inst : Instance C} (conn : Conn Sent) :
      c.phase.Takes (streams.lookup (u.key d c.session.claims)) d →
      Instance.new d c.session.claims = .ok inst →
      Next u heap streams j c { c.withConn conn with phase := .bound d inst } []
  | fail {conn : Conn Sent} (text : String) :
      (conn = c.session.conn ∨
        ∃ code message shape, conn = sendErr c.session.conn code message shape) →
      Next u heap streams j c ((c.withConn conn).fail j text).1 ((c.withConn conn).fail j text).2
  | replay {d : Definition C} {resumeAt : Int} {a : Nat} {inst : Instance C}
      {events : List Event} : c.phase = .found d resumeAt a → heap[a]? = some inst →
      0 < resumeAt → inst.log.after resumeAt = some events →
      Next u heap streams j c { c with phase := .replay d a events } []
  | refuse {d : Definition C} {resumeAt : Int} {a : Nat} {inst : Instance C} :
      c.phase = .found d resumeAt a → heap[a]? = some inst → 0 < resumeAt →
      inst.log.after resumeAt = none →
      Next u heap streams j c { c with phase := .refused d } []
  | offset {d : Definition C} {a : Nat} {inst : Instance C} : c.phase = .found d 0 a →
      heap[a]? = some inst →
      Next u heap streams j c { c with phase := .offset d a inst.log.lastOffset } []
  | event {d : Definition C} {a : Nat} {ev : Event} {events : List Event} {notes : List (Note C)}
      (conn : Conn Sent) : c.phase = .replay d a (ev :: events) →
      (∀ n ∈ notes, n = c.note j d (.change d.name ev.offset ev.op ev.row) (.stream a)) →
      Next u heap streams j c { c.withConn conn with phase := .replay d a events } notes
  | replayed {d : Definition C} {a : Nat} : c.phase = .replay d a [] →
      Next u heap streams j c { c with phase := .served d a } []
  | rows {d : Definition C} {a : Nat} {offset : Int} {inst : Instance C} :
      c.phase = .offset d a offset → heap[a]? = some inst →
      Next u heap streams j c { c with phase := .rows d a offset inst.materialized } []
  | cached {d : Definition C} {a : Nat} {offset : Int} {rows : Multiset Row} (conn : Conn Sent) :
      c.phase = .rows d a offset rows →
      Next u heap streams j c { c.withConn conn with phase := .served d a }
        [c.note j d (.snapshot d.name 0 offset rows) (.stream a)]
  | stored {d : Definition C} {a : Nat} {lsn : LSN} {rows : List Row} {offset : Int} :
      c.phase = .stored d a lsn rows →
      Next u heap streams j c { c with phase := .snapshot d a lsn rows offset } []
  | loaded {d : Definition C} {a : Nat} {lsn : LSN} {rows : List Row} {offset : Int}
      (conn : Conn Sent) : c.phase = .snapshot d a lsn rows offset →
      Next u heap streams j c { c.withConn conn with phase := .served d a }
        [c.note j d (.snapshot d.name lsn offset rows) .database]
  | subscribed {d : Definition C} {a : Nat} (shapes : Finset String) : c.phase = .served d a →
      Next u heap streams j c
        { c with session := { c.session with shapes := shapes }, phase := .next }
        [.subscribed j a c.request.halted]
  | slow {m : Sent} (conn : Conn Sent) : (c.session.conn.enqueue m).2 = false →
      Next u heap streams j c { c.withConn conn with phase := .slow } []
  | bye (conn : Conn Sent) : c.phase = .slow →
      Next u heap streams j c { c.withConn conn with phase := .parting } []

/-- A step of one client's goroutine other than the store. -/
inductive Client.Acts (u : Setup C) (s : State C) (e : Ev C) (j : Nat) (c : Client C) :
    Client C → List (Note C) → Prop where
  | subscribe (names : List String) : c.phase = .idle → Acts u s e j c
      { c with phase := .next, names := names, request := s.request j names } []
  | refuse (names : List String) (text : String) : c.phase = .idle → Acts u s e j c
      ({ c with request := s.request j names }.fail j text).1
      ({ c with request := s.request j names }.fail j text).2
  | fail {d : Definition C} {inst : Instance C} (text : String) : c.phase = .bound d inst →
      Acts u s e j c (c.fail j text).1 (c.fail j text).2
  | take {d : Definition C} {inst inst' : Instance C} {lsn : LSN} {rows : List Row} :
      e = .take j lsn rows → c.phase = .bound d inst →
      inst.loadSnapshot lsn (rows.map some) = (inst', .ok ()) →
      Acts u s e j c { c with phase := .loaded d inst' lsn rows } []
  | next {c' : Client C} {notes : List (Note C)} : e = .session j →
      c.Next u s.heap s.streams j c' notes → Acts u s e j c c' notes

/-- The steps of the goroutine of `Run`. -/
inductive RunStep (s : State C) : State C → Prop where
  | applied {r : Round} : s.work = .applying r → r.streams = [] → RunStep s
      { s with work := .delivering (r.listed.flatMap fun j => r.results.map fun res => (j, res)) }
  | silent {r : Round} {key : String} {a : Nat} {streams : List (String × Nat)}
      {inst : Instance C} {work : Work} : s.work = .applying r → r.streams = (key, a) :: streams →
      s.heap[a]? = some inst → (∀ m, (inst.applyBegin r.change).2 ≠ .ok (some m)) →
      (work = .applying { r with streams := streams } ∨
        ∃ err, work = State.afterError { r with streams := streams } key err) → RunStep s
      { s with heap := s.heap.set a (inst.applyBegin r.change).1, work := work }
  | cached {r : Round} {key : String} {a : Nat} {streams : List (String × Nat)}
      {inst : Instance C} {m : Move} : s.work = .applying r → r.streams = (key, a) :: streams →
      s.heap[a]? = some inst → (inst.applyBegin r.change).2 = .ok (some m) → RunStep s
      { s with
        heap := s.heap.set a (inst.applyBegin r.change).1
        work := .appending { r with streams := streams } key a m }
  | appended {r : Round} {key : String} {a : Nat} {m : Move} {inst : Instance C} {ev : Event}
      {log : Log} : s.work = .appending r key a m → s.heap[a]? = some inst →
      inst.log.append m.op inst.defn.table m.row = .ok (ev, log) → RunStep s
      { s with
        heap := s.heap.set a { inst with log := log }
        work := .applying { r with results := r.results ++ [⟨key, shapeNameOf key, [ev]⟩] } }
  | unappended {r : Round} {key : String} {a : Nat} {m : Move} {err : ShapeError} :
      s.work = .appending r key a m → RunStep s { s with work := State.afterError r key err }
  | notified {r : Round} {shapeName text : String} : s.work = .notifying r shapeName text [] →
      RunStep s { s with work := .applying r }
  | notify {r : Round} {shapeName text : String} {j : Nat} {left : List Nat} {work : Work} :
      s.work = .notifying r shapeName text (j :: left) →
      (work = .telling r shapeName text j left ∨ work = .notifying r shapeName text left) →
      RunStep s { s with work := work }
  | tell {r : Round} {shapeName text : String} {j : Nat} {left : List Nat} {c : Client C}
      {conn : Conn Sent} : s.work = .telling r shapeName text j left → s.clients[j]? = some c →
      RunStep s { s.setClient j (c.withConn conn) with work := .notifying r shapeName text left }
  | finish : s.work = .delivering [] → RunStep s { s with work := .idle }
  | deliver {j : Nat} {result : Applied} {todo : List (Nat × Applied)} {work : Work} :
      s.work = .delivering ((j, result) :: todo) →
      (work = .sending j result todo ∨ work = .delivering todo) →
      RunStep s { s with work := work }
  | delivered {j : Nat} {result : Applied} {todo : List (Nat × Applied)} :
      s.work = .sending j result todo → result.events = [] →
      RunStep s { s with work := .delivering todo }
  | sent {j : Nat} {result : Applied} {todo : List (Nat × Applied)} {ev : Event}
      {events : List Event} {c : Client C} {conn : Conn Sent} {notes : List (Note C)} :
      s.work = .sending j result todo → result.events = ev :: events → s.clients[j]? = some c →
      (notes = [.delivered j result.source ev.offset] ∨ notes = []) → RunStep s
      { s.setClient j (c.withConn conn) with
        work := .sending j { result with events := events } todo, trace := s.trace ++ notes }
  | slow {j : Nat} {result : Applied} {todo : List (Nat × Applied)} {c : Client C}
      {conn : Conn Sent} : s.work = .sending j result todo → s.clients[j]? = some c → RunStep s
      { s.setClient j (c.withConn conn) with
        work := .leaving j reasonSlowClient (.delivering todo) }
  | clear : s.work = .broadcasting [] → RunStep s s.clear
  | broadcast {j : Nat} {left : List Nat} {c : Client C} {conn : Conn Sent} :
      s.work = .broadcasting (j :: left) → s.clients[j]? = some c → RunStep s
      { s.setClient j (c.withConn conn) with
        work := .broadcasting left, trace := s.trace ++ [.resnapshot j] }
  | unwarned {j : Nat} {left : List Nat} {c : Client C} {conn : Conn Sent} :
      s.work = .broadcasting (j :: left) → s.clients[j]? = some c → RunStep s
      { s.setClient j (c.withConn conn) with
        work := .leaving j reasonSlowClient (.broadcasting left) }
  | bye {j : Nat} {reason : String} {rest : Rest} {c : Client C} {conn : Conn Sent} :
      s.work = .leaving j reason rest → s.clients[j]? = some c → RunStep s
      { s.setClient j (c.withConn conn) with work := .parting j rest }
  | parted {j : Nat} {rest : Rest} : s.work = .parting j rest →
      RunStep s { s with work := rest.work }

/-- What the events do that move no client's goroutine. -/
inductive Aside (s : State C) (e : Ev C) : State C → Prop where
  | buffer (clients : List (Client C)) : Aside s e { s with clients := clients }
  | copy {ch : Change} {order : List String} {listed : List Nat} : e = .copy ch order listed →
      s.work = .idle → order.Nodup → order.toFinset = s.streams.keys → listed.Perm s.listed →
      Aside s e
        { s with work := .applying { change := ch, listed := listed, streams := s.copied order } }
  | recover {listed : List Nat} : e = .recover listed → s.work = .idle →
      Aside s e { s with work := .broadcasting listed }
  | sweep {j : Nat} (clients : List (Client C)) : e = .sweep j → s.work = .idle →
      Aside s e { s with clients := clients, work := .leaving j reasonIdleClient .idle }
  | run {t : State C} : e = .run → RunStep s t → Aside s e t

/-- What event `e` can do. -/
inductive Step (u : Setup C) (s : State C) (e : Ev C) : State C → Prop where
  | connect {claims : C} (conn : Conn Sent) : e = .connect claims → Step u s e
      { s with clients := s.clients ++ [{ session := ⟨conn, claims, ∅, ∅⟩ }] }
  | background {t : State C} : Background s t → Aside s e t → Step u s e t
  | client {j : Nat} {c c' : Client C} {notes : List (Note C)} : e.actor = some j →
      s.clients[j]? = some c → c.Acts u s e j c' notes →
      Step u s e { s.setClient j c' with trace := s.trace ++ notes }
  | store {j : Nat} {c : Client C} {d : Definition C} {inst : Instance C} {lsn : LSN}
      {rows : List Row} : e = .session j → s.clients[j]? = some c →
      c.phase = .loaded d inst lsn rows → Step u s e (s.store u j c d inst lsn rows)

theorem runStep_spec (stepped : s.runStep u = some t) : RunStep s t := by
  cases work : s.work with
  | idle => simp [State.runStep, work] at stepped
  | applying r =>
      simp only [State.runStep, work] at stepped
      cases streams : r.streams with
      | nil =>
          rw [streams] at stepped
          cases stepped
          exact .applied work streams
      | cons entry later =>
          rw [streams] at stepped
          obtain ⟨inst, found, moved⟩ := Option.bind_eq_some_iff.1 stepped
          have begun : inst.applyBegin r.change = (_, (inst.applyBegin r.change).2) := rfl
          rcases outcome : (inst.applyBegin r.change).2 with err | (_ | m)
          · rw [begun, outcome] at moved
            cases moved
            exact .silent work streams found (by simp [outcome]) (.inr ⟨err, rfl⟩)
          · rw [begun, outcome] at moved
            cases moved
            exact .silent work streams found (by simp [outcome]) (.inl rfl)
          · rw [begun, outcome] at moved
            cases moved
            exact .cached work streams found outcome
  | appending r key a m =>
      simp only [State.runStep, work] at stepped
      obtain ⟨inst, found, moved⟩ := Option.bind_eq_some_iff.1 stepped
      split at moved
      · cases moved
        exact .unappended work
      · next appended =>
          cases moved
          exact .appended work found appended
  | notifying r shapeName text left =>
      cases left with
      | nil =>
          simp only [State.runStep, work, Option.some.injEq] at stepped
          subst stepped
          exact .notified work
      | cons j left =>
          simp only [State.runStep, work] at stepped
          obtain ⟨c, -, moved⟩ := Option.bind_eq_some_iff.1 stepped
          cases moved
          refine .notify work ?_
          split
          · exact .inl rfl
          · exact .inr rfl
  | telling r shapeName text j left =>
      simp only [State.runStep, work] at stepped
      obtain ⟨c, found, moved⟩ := Option.bind_eq_some_iff.1 stepped
      cases moved
      exact .tell work found
  | delivering todo =>
      cases todo with
      | nil =>
          simp only [State.runStep, work, Option.some.injEq] at stepped
          subst stepped
          exact .finish work
      | cons due todo =>
          obtain ⟨j, result⟩ := due
          simp only [State.runStep, work] at stepped
          obtain ⟨c, -, moved⟩ := Option.bind_eq_some_iff.1 stepped
          cases moved
          refine .deliver work ?_
          split
          · exact .inl rfl
          · exact .inr rfl
  | sending j result todo =>
      simp only [State.runStep, work] at stepped
      cases events : result.events with
      | nil =>
          rw [events] at stepped
          cases stepped
          exact .delivered work events
      | cons ev later =>
          rw [events] at stepped
          obtain ⟨c, found, moved⟩ := Option.bind_eq_some_iff.1 stepped
          split at moved
          · cases moved
            refine .sent work events found ?_
            split
            · exact .inl rfl
            · exact .inr rfl
          · cases moved
            exact .slow work found
  | broadcasting left =>
      cases left with
      | nil =>
          simp only [State.runStep, work, Option.some.injEq] at stepped
          subst stepped
          exact .clear work
      | cons j left =>
          simp only [State.runStep, work] at stepped
          obtain ⟨c, found, moved⟩ := Option.bind_eq_some_iff.1 stepped
          split at moved
          · cases moved
            exact .broadcast work found
          · cases moved
            exact .unwarned work found
  | leaving j reason rest =>
      simp only [State.runStep, work] at stepped
      obtain ⟨c, found, moved⟩ := Option.bind_eq_some_iff.1 stepped
      cases moved
      exact .bye work found
  | parting j rest =>
      simp only [State.runStep, work] at stepped
      obtain ⟨c, -, moved⟩ := Option.bind_eq_some_iff.1 stepped
      split at moved
      · cases moved
      · cases moved
        exact .parted work

theorem background_buffer {j : Nat} {c : Client C} (found : s.clients[j]? = some c)
    (conn : Conn Sent) (work : Work) {trace : List (Note C)}
    (noted : ∃ notes, trace = s.trace ++ notes ∧ ∀ n ∈ notes, n.background) :
    Background s { s.setClient j (c.withConn conn) with work := work, trace := trace } :=
  ⟨.refl _, .inl rfl, map_control_set found rfl, noted⟩

theorem background_work (work : Work) : Background s { s with work := work } :=
  ⟨.refl _, .inl rfl, rfl, [], by simp, by simp⟩

theorem background_heap {a : Nat} {inst inst' : Instance C} (found : s.heap[a]? = some inst)
    (evolves : Evolves inst inst') (work : Work) :
    Background s { s with heap := s.heap.set a inst', work := work } :=
  ⟨grows_set found evolves, .inl rfl, rfl, [], by simp, by simp⟩

theorem background_clear (cleared : s.work = .broadcasting []) : Background s s.clear where
  heap := .refl _
  streams := .inr ⟨cleared, rfl⟩
  controls := by
    simp only [State.clear, List.map_map]
    refine List.map_congr_left fun c _ => ?_
    simp only [Function.comp_apply]
    split <;> rfl
  trace := ⟨[], by simp [State.clear], by simp⟩

theorem background_run (stepped : RunStep s t) : Background s t := by
  have unnoted : ∃ notes, s.trace = s.trace ++ notes ∧ ∀ n ∈ notes, n.background :=
    ⟨[], by simp, by simp⟩
  cases stepped with
  | silent _ _ found _ _ => exact background_heap found (evolves_applyBegin _ _) _
  | cached _ _ found _ => exact background_heap found (evolves_applyBegin _ _) _
  | appended _ found appended => exact background_heap found (evolves_append appended) _
  | tell _ found => exact background_buffer found _ _ unnoted
  | sent _ _ found noted =>
      refine background_buffer found _ _ ⟨_, rfl, ?_⟩
      rcases noted with rfl | rfl <;> simp [Note.background]
  | slow _ found | unwarned _ found | bye _ found => exact background_buffer found _ _ unnoted
  | clear work => exact background_clear work
  | broadcast _ found =>
      exact background_buffer found _ _ ⟨_, rfl, by simp [Note.background]⟩
  | applied | unappended | notified | notify | finish | deliver | delivered | parted =>
      exact background_work _

/-! ## The steps of a session -/

section Next

variable {heap : List (Instance C)} {streams : KeyMap String Nat} {j : Nat} {c c' : Client C}
  {notes : List (Note C)}

theorem next_fail {conn : Conn Sent} {text : String}
    (same : conn = c.session.conn ∨
      ∃ code message shape, conn = sendErr c.session.conn code message shape)
    (failed : (c.withConn conn).fail j text = (c', notes)) : c.Next u heap streams j c' notes := by
  have fails : c.Next u heap streams j ((c.withConn conn).fail j text).1
      ((c.withConn conn).fail j text).2 := .fail text same
  rwa [failed] at fails

theorem next_bind {d : Definition C} {conn : Conn Sent}
    (phase : c.phase.Takes (streams.lookup (u.key d c.session.claims)) d)
    (same : conn = c.session.conn ∨
      ∃ code message shape, conn = sendErr c.session.conn code message shape)
    (bound : (c.withConn conn).bind j d = (c', notes)) : c.Next u heap streams j c' notes := by
  unfold Client.bind at bound
  split at bound
  · exact next_fail same bound
  · next created =>
      cases bound
      exact .bound conn phase created

theorem next_sendSnapshot {d : Definition C} {a : Nat} {lsn : LSN} {offset : Int}
    {rows : Multiset Row} {origin : Origin}
    (served : ∀ conn, c.Next u heap streams j { c.withConn conn with phase := .served d a }
      [c.note j d (.snapshot d.name lsn offset rows) origin])
    (sent : c.sendSnapshot u j d a lsn offset rows origin = (c', notes)) :
    c.Next u heap streams j c' notes := by
  unfold Client.sendSnapshot at sent
  split at sent
  · dsimp only at sent
    split at sent
    · cases sent
      exact served _
    · next refused =>
        cases sent
        exact .slow _ (congrArg Prod.snd refused)
  · exact next_fail (.inl rfl) sent

theorem next_sendReplay {d : Definition C} {a : Nat} {ev : Event} {events : List Event}
    (phase : c.phase = .replay d a (ev :: events))
    (sent : c.sendReplay u j d a ev events = (c', notes)) : c.Next u heap streams j c' notes := by
  unfold Client.sendReplay at sent
  split at sent
  · cases sent
    refine .event _ phase fun n member => ?_
    split at member
    · exact List.mem_singleton.1 member
    · cases member
  · next refused =>
      cases sent
      unfold enqueueChange at refused
      split at refused
      · exact .slow _ (congrArg Prod.snd refused)
      · cases refused

theorem next_spec (next : c.next u heap streams j = some (c', notes)) :
    c.Next u heap streams j c' notes := by
  cases phase : c.phase with
  | idle | bound | loaded => simp [Client.next, phase] at next
  | next =>
      simp only [Client.next, phase] at next
      split at next
      · next none =>
          cases next
          exact .finish phase none
      · next names =>
          split at next
          · next unregistered =>
              cases next
              exact .unknown _ phase names unregistered
          · next registered =>
              cases next
              exact .resume phase names registered
  | resume d resumeAt =>
      simp only [Client.next, phase] at next
      split at next
      · next held =>
          cases next
          exact .found phase held
      · next missing =>
          exact next_bind (by rw [phase]; exact ⟨rfl, missing⟩) (.inl rfl) (Option.some.inj next)
  | found d resumeAt a =>
      simp only [Client.next, phase] at next
      obtain ⟨inst, found, moved⟩ := Option.bind_eq_some_iff.1 next
      split at moved
      · next positive =>
          split at moved
          · next held =>
              cases moved
              exact .replay phase found positive held
          · next unheld =>
              cases moved
              exact .refuse phase found positive unheld
      · next low =>
          split at moved
          · next zero =>
              cases moved
              exact .offset (zero ▸ phase) found
          · next nonzero =>
              have negative : resumeAt < 0 := lt_of_le_of_ne (Int.not_lt.1 low) nonzero
              exact next_bind (by rw [phase]; exact ⟨rfl, negative⟩) (.inl rfl)
                (Option.some.inj moved)
  | refused d =>
      simp only [Client.next, phase] at next
      exact next_bind (by rw [phase]; rfl) (.inr ⟨_, _, _, rfl⟩) (Option.some.inj next)
  | replay d a events =>
      cases events with
      | nil =>
          simp only [Client.next, phase] at next
          cases next
          exact .replayed phase
      | cons ev events =>
          simp only [Client.next, phase] at next
          exact next_sendReplay phase (Option.some.inj next)
  | offset d a offset =>
      simp only [Client.next, phase] at next
      obtain ⟨inst, found, moved⟩ := Option.bind_eq_some_iff.1 next
      cases moved
      exact .rows phase found
  | rows d a offset rows =>
      simp only [Client.next, phase] at next
      exact next_sendSnapshot (fun conn => .cached conn phase) (Option.some.inj next)
  | stored d a lsn rows =>
      simp only [Client.next, phase] at next
      obtain ⟨inst, -, moved⟩ := Option.bind_eq_some_iff.1 next
      cases moved
      exact .stored phase
  | snapshot d a lsn rows offset =>
      simp only [Client.next, phase] at next
      exact next_sendSnapshot (fun conn => .loaded conn phase) (Option.some.inj next)
  | served d a =>
      simp only [Client.next, phase] at next
      cases next
      exact .subscribed _ phase
  | slow =>
      simp only [Client.next, phase] at next
      cases next
      exact .bye _ phase
  | parting =>
      simp only [Client.next, phase] at next
      split at next
      · cases next
      · exact next_fail (.inl rfl) (Option.some.inj next)

theorem fail_notes (c : Client C) (j : Nat) (text : String) :
    ∀ n ∈ (c.fail j text).2, n = .failed j text := by
  intro n member
  simp only [Client.fail] at member
  split at member
  · exact List.mem_singleton.1 member
  · cases member

theorem next_notes (next : c.Next u heap streams j c' notes) : ∀ n ∈ notes, ¬ n.background := by
  cases next with
  | event conn _ noted =>
      intro n member
      rw [noted n member]
      exact id
  | fail text _ =>
      intro n member
      rw [fail_notes _ _ _ n member]
      exact id
  | _ => simp [Client.note, Note.background]

end Next

theorem Client.Acts.notes {e : Ev C} {j : Nat} {c c' : Client C} {notes : List (Note C)}
    (acts : c.Acts u s e j c' notes) : ∀ n ∈ notes, ¬ n.background := by
  cases acts with
  | next _ moved => exact next_notes moved
  | refuse names text | fail text _ =>
      intro n member
      rw [fail_notes _ _ _ n member]
      exact id
  | _ => simp

section Specs

variable {e : Ev C}

theorem background_step {j : Nat} {c c' : Client C} (found : s.clients[j]? = some c)
    (same : c'.control = c.control) : Step u s e (s.setClient j c') :=
  .background ⟨.refl _, .inl rfl, map_control_set found same, [], by simp [State.setClient],
    by simp⟩ (.buffer _)

theorem sessionStep_spec {j : Nat} (stepped : s.sessionStep u j = some t) :
    Step u s (.session j) t := by
  obtain ⟨c, found, moved⟩ := Option.bind_eq_some_iff.1 stepped
  split at moved
  · next phase =>
      cases moved
      exact .store rfl found phase
  · obtain ⟨⟨c', notes⟩, next, same⟩ := Option.bind_eq_some_iff.1 moved
    cases same
    exact .client rfl found (.next rfl (next_spec next))

theorem step_spec (stepped : step u s e = some t) : Step u s e t := by
  cases e with
  | connect claims =>
      cases stepped
      exact .connect _ rfl
  | hello j resume =>
      obtain ⟨c, found, moved⟩ := Option.bind_eq_some_iff.1 stepped
      split at moved
      · cases moved
        exact background_step found rfl
      · cases moved
  | subscribe j names pool =>
      obtain ⟨c, found, moved⟩ := Option.bind_eq_some_iff.1 stepped
      split at moved
      · next idle =>
          cases moved
          exact .client rfl found (.refuse names _ idle)
      · next idle =>
          cases moved
          have stepped := Step.client (u := u) rfl found
            (.subscribe (e := .subscribe j names none) names idle)
          simpa [State.setClient] using stepped
      · cases moved
  | session j => exact sessionStep_spec stepped
  | take j lsn rows =>
      obtain ⟨c, found, moved⟩ := Option.bind_eq_some_iff.1 stepped
      obtain ⟨⟨c', notes⟩, taken, same⟩ := Option.bind_eq_some_iff.1 moved
      cases same
      unfold Client.take at taken
      split at taken
      · next phase =>
          split at taken
          · next err _ =>
              have failed := Client.Acts.fail (u := u) (s := s) (e := .take j lsn rows) (j := j)
                err.text phase
              rw [Option.some.inj taken] at failed
              exact .client rfl found failed
          · next loaded =>
              cases taken
              exact .client rfl found (.take rfl phase loaded)
      · cases taken
  | takeFails j text =>
      obtain ⟨c, found, moved⟩ := Option.bind_eq_some_iff.1 stepped
      split at moved
      · next phase =>
          cases moved
          exact .client rfl found (.fail text phase)
      · cases moved
  | copy ch order listed =>
      simp only [step] at stepped
      split at stepped
      · next idle =>
          split at stepped
          · next orders =>
              cases stepped
              exact .background (background_work _)
                (.copy rfl idle orders.1 orders.2.1 orders.2.2)
          · cases stepped
      · cases stepped
  | recover listed =>
      simp only [step] at stepped
      split at stepped
      · next idle =>
          split at stepped
          · cases stepped
            exact .background (background_work _) (.recover rfl idle)
          · cases stepped
      · cases stepped
  | run =>
      have ran := runStep_spec stepped
      exact .background (background_run ran) (.run rfl ran)
  | pump j =>
      obtain ⟨c, found, moved⟩ := Option.bind_eq_some_iff.1 stepped
      obtain ⟨conn, -, same⟩ := Option.bind_eq_some_iff.1 moved
      cases same
      exact background_step found rfl
  | shut j =>
      obtain ⟨c, found, moved⟩ := Option.bind_eq_some_iff.1 stepped
      obtain ⟨conn, -, same⟩ := Option.bind_eq_some_iff.1 moved
      cases same
      exact background_step found rfl
  | sweep j =>
      obtain ⟨c, found, moved⟩ := Option.bind_eq_some_iff.1 stepped
      split at moved
      · next idle _ =>
          cases moved
          exact .background ⟨.refl _, .inl rfl, map_control_set found rfl, [],
            by simp [State.setClient], by simp⟩ (.sweep _ rfl idle)
      · cases moved
  | leave j =>
      obtain ⟨c, found, moved⟩ := Option.bind_eq_some_iff.1 stepped
      split at moved
      · cases moved
        exact background_step found rfl
      · cases moved

end Specs

/-! ## What holds of every registered stream -/

def AllStreams (P : Instance C → Prop) (s : State C) : Prop :=
  ∀ key a, s.streams.lookup key = some a → ∃ inst, s.heap[a]? = some inst ∧ P inst

/-- What `Apply` keeps holds of every stream if it holds of those that are stored. -/
theorem allStreams_step {P : Instance C → Prop} {e : Ev C} (all : AllStreams P s)
    (kept : ∀ inst inst', Evolves inst inst' → P inst → P inst')
    (fresh : ∀ j c d inst lsn rows, e = .session j → s.clients[j]? = some c →
      c.phase = .loaded d inst lsn rows → P inst)
    (stepped : step u s e = some t) : AllStreams P t := by
  have grown : ∀ {heap : List (Instance C)}, Grows s.heap heap →
      ∀ key a, s.streams.lookup key = some a → ∃ inst, heap[a]? = some inst ∧ P inst := by
    intro heap grows key a held
    obtain ⟨inst, found, holds⟩ := all key a held
    obtain ⟨inst', found', evolves⟩ := grows a inst found
    exact ⟨inst', found', kept _ _ evolves holds⟩
  cases step_spec stepped with
  | connect _ _ => exact all
  | client _ _ => exact all
  | background quiet _ =>
      intro key a held
      rcases quiet.streams with same | ⟨-, none⟩
      · exact grown quiet.heap key a (same ▸ held)
      · rw [none] at held
        cases held
  | @store j c d inst lsn rows event found phase =>
      intro key a held
      simp only [State.store, KeyMap.lookup_insert_eq] at held
      split at held
      · cases held
        exact ⟨inst, by simp [State.store], fresh j c d inst lsn rows event found phase⟩
      · exact grown (grows_append _ _) key a held

/-! ## A shape of all tasks, for example runs -/

namespace Tasks

def tasks : Definition Unit :=
  { name := "tasks", schema := "public", table := "tasks", primaryKey := ["id"]
    bind := some fun _ => .ok (.notNull "id") }

def setup : Setup Unit := .single tasks fun _ => ""

def task (id : Int64) : Row := KeyMap.ofList [("id", .int64 id)]

def inserted (id : Int64) (lsn : LSN) : Change :=
  { schema := "public", table := "tasks", op := .insert, commitLSN := lsn, new := some (task id) }

def deleted (id : Int64) (lsn : LSN) : Change :=
  { schema := "public", table := "tasks", op := .delete, commitLSN := lsn, old := some (task id) }

/-- The first subscription, with one task in the table, up to the end of the request. -/
def subscribed : List (Ev Unit) :=
  [.connect (), .subscribe 0 ["tasks"] none, .session 0, .session 0, .take 0 10 [task 1]] ++
    List.replicate 5 (.session 0)

/-- The dispatch of a change to the first session, in `steps` steps. -/
def dispatched (ch : Change) (steps : Nat) : List (Ev Unit) :=
  .copy ch [streamKey "tasks" ""] [0] :: List.replicate steps .run

end Tasks

end Tether.Live
