/-
# Tether.Engine.Replay — clients that replay their queues

The mutation half of `serveWS` and `handleMutation`, with the clients on the other
side.  A client holds a queue of mutations; on every connection it sends the queue from
the beginning, each mutation after the `mutation_ok` for the one before.  So a
connection has at most one request under way, and the server's read loop handles it
before the next.

A connection can die at any point.  Its request lives on: it may be read, handled and
committed later, in between the requests of the connections that follow.  A reply that
reaches no client is never received.

`machine` runs on top of the interleavings of `mutate.Apply`: each request that passes
`handleMutation`'s checks is one call there.
-/
import Tether.Engine.Session
import Tether.Mutate.AtMostOnce

namespace Tether.Replay

open Tether.Lib Tether.Mutate

set_option autoImplicit false

/-- `proto.Mutation`, without what only the handler reads. -/
structure Request where
  id : String
  op : String
  key : String
  deriving DecidableEq

inductive Reply where
  | mutationOK (id : String) (duplicate : Bool)
  | mutationReject (id reason : String)
  | error (code message : String)
  deriving DecidableEq

def codeNoHandler : String := "no_mutation_handler"

/-- The error of `newMutation`, if any. -/
def newMutation (op key : String) : Option String :=
  if op = "" then some "tether: mutation op is required"
  else if key = "" then some "tether: mutation idempotency key is required"
  else none

/-- What stops `handleMutation` before it looks at the request. -/
inductive Refusal where
  | noHandler
  | ensurePool (cause : String)
  | ensureSchema (cause : String)

def Refusal.reply : Refusal → Reply
  | .noHandler => .error codeNoHandler "OnMutation not configured"
  | .ensurePool cause | .ensureSchema cause => .error codeHalted cause

/-- The three questions the engine asks about a handler's error. -/
structure Errors (ε : Type) where
  isReject : ε → Bool
  rejectReason : ε → String
  text : ε → String

section Server

variable {ε : Type} (errors : Errors ε)

/-- `handleMutation` up to `mutate.Apply`: a reply at once, or the call. -/
def handleMutation (refusal : Option Refusal) (req : Request) : Except Reply (Args ε) :=
  match refusal, newMutation req.op req.key with
  | some refusal, _ => .error refusal.reply
  | none, some err => .error (.mutationReject req.id err)
  | none, none =>
      .ok { key := req.key
            isReject := some errors.isReject
            rejectReason := some errors.rejectReason }

/-- `handleMutation` after `mutate.Apply` returned. -/
def replyTo (req : Request) : Except (ApplyError ε) Result → Reply
  | .error err => .error codeHalted (err.text errors.text)
  | .ok res =>
      if res.rejected then .mutationReject req.id res.reason
      else .mutationOK req.id res.duplicate

end Server

/-- A request under way on a connection. -/
inductive Stage where
  | sent
  | handling (call : Nat)
  | refused (reply : Reply)

/-- `received` counts the `mutation_ok`s of this connection; the request under way is
the one after them. -/
structure Connection where
  client : Nat
  alive : Bool := true
  received : Nat := 0
  stage : Option Stage := none

structure State (ε W : Type) where
  queues : List (List Request)
  conns : List Connection := []
  database : Mutate.State ε W := {}

inductive Event (ε W : Type) where
  | connect (client : Nat)
  | send (j : Nat)
  | handle (j : Nat) (refusal : Option Refusal)
  | apply (i : Nat) (a : Action ε W)
  | receive (j : Nat)
  | die (j : Nat)

section Machine

variable {ε W : Type} (errors : Errors ε)

/-- The request a connection is at. -/
def State.request (s : State ε W) (conn : Connection) : Option Request :=
  (s.queues[conn.client]?).bind fun queue => queue[conn.received]?

/-- The server's reply to the request under way, once there is one. -/
def State.reply (s : State ε W) (conn : Connection) (req : Request) : Option Reply :=
  match conn.stage with
  | some (.handling i) =>
      match (s.database.calls[i]?).map Call.pc with
      | some (.returned r) => some (replyTo errors req r)
      | _ => none
  | some (.refused reply) => some reply
  | _ => none

def State.setConn (s : State ε W) (j : Nat) (conn : Connection) : State ε W :=
  { s with conns := s.conns.set j conn }

def step (s : State ε W) : Event ε W → Option (State ε W)
  | .connect client =>
      if client < s.queues.length then some { s with conns := s.conns ++ [{ client := client }] }
      else none
  | .send j => do
      let conn ← s.conns[j]?
      let _ ← s.request conn
      match conn.alive, conn.stage with
      | true, none => some (s.setConn j { conn with stage := some .sent })
      | _, _ => none
  | .handle j refusal => do
      let conn ← s.conns[j]?
      let req ← s.request conn
      match conn.stage, handleMutation errors refusal req with
      | some .sent, .error reply =>
          some (s.setConn j { conn with stage := some (.refused reply) })
      | some .sent, .ok args => do
          let database ← Mutate.step s.database (.call args)
          return { s.setConn j { conn with stage := some (.handling s.database.calls.length) } with
            database := database }
      | _, _ => none
  | .apply i a => do
      let database ← Mutate.step s.database (.on i a)
      return { s with database := database }
  | .receive j => do
      let conn ← s.conns[j]?
      let req ← s.request conn
      match conn.alive, s.reply errors conn req with
      | true, some (.mutationOK _ _) =>
          some (s.setConn j { conn with received := conn.received + 1, stage := none })
      | _, _ => none
  | .die j => do
      let conn ← s.conns[j]?
      return s.setConn j { conn with alive := false }

/-- All keys of all queues are different, and nothing has happened yet. -/
def Start (s : State ε W) : Prop :=
  (s.queues.map (List.map Request.key)).flatten.Nodup ∧ s = { queues := s.queues }

def machine : Machine (State ε W) (Event ε W) := ⟨Start, step errors⟩

/-- The keys of one queue among the committed effects, in commit order. -/
def State.committed (s : State ε W) (queue : List Request) : List String :=
  (s.database.effects.map Effect.key).filter (· ∈ queue.map Request.key)

structure State.Converges (s : State ε W) : Prop where
  inOrder : ∀ queue ∈ s.queues, s.committed queue <+: queue.map Request.key
  once : ∀ queue ∈ s.queues, (s.committed queue).Nodup
  replayed : ∀ conn ∈ s.conns, ∀ queue, s.queues[conn.client]? = some queue →
    conn.received = queue.length → s.committed queue = queue.map Request.key

/-! ## The invariant -/

/-- A call is for the request the connection is at; an early reply accepts nothing. -/
def Stage.Sound (db : Mutate.State ε W) (next : Option Request) : Stage → Prop
  | .sent => True
  | .handling i => ∃ c req, db.calls[i]? = some c ∧ next = some req ∧ c.args.key = req.key
  | .refused reply => ∀ id duplicate, reply ≠ .mutationOK id duplicate

/-- What was accepted on a connection is applied. -/
def Connection.Sound (s : State ε W) (conn : Connection) : Prop :=
  ∃ queue, s.queues[conn.client]? = some queue ∧
    (∀ req ∈ queue.take conn.received, req.key ∈ s.database.keys) ∧
    ∀ stage ∈ conn.stage, stage.Sound s.database queue[conn.received]?

/-- The call is for a request whose predecessors are all applied. -/
def InTurn (s : State ε W) (c : Call ε W) : Prop :=
  ∃ queue n req, queue ∈ s.queues ∧ queue[n]? = some req ∧ c.args.key = req.key ∧
    ∀ earlier ∈ queue.take n, earlier.key ∈ s.database.keys

structure Inv (s : State ε W) : Prop where
  distinct : (s.queues.map (List.map Request.key)).flatten.Nodup
  database : Mutate.Inv s.database
  conns : ∀ conn ∈ s.conns, conn.Sound s
  calls : ∀ c ∈ s.database.calls, InTurn s c
  inOrder : ∀ queue ∈ s.queues, InOrder (queue.map Request.key) s.database.keys

/-- What the database keeps: the applied keys, and the arguments of every call. -/
structure Grows (db db' : Mutate.State ε W) : Prop where
  keys : db.keys ⊆ db'.keys
  calls : ∀ (i : Nat) c, db.calls[i]? = some c → ∃ c', db'.calls[i]? = some c' ∧ c'.args = c.args

theorem Stage.Sound.grow {db db' : Mutate.State ε W} {next : Option Request} {stage : Stage}
    (sound : stage.Sound db next) (grows : Grows db db') : stage.Sound db' next := by
  cases stage with
  | sent => trivial
  | handling i =>
      obtain ⟨c, req, here, at_next, key⟩ := sound
      obtain ⟨c', here', args⟩ := grows.calls i c here
      exact ⟨c', req, here', at_next, args ▸ key⟩
  | refused reply => exact sound

theorem Connection.Sound.grow {s s' : State ε W} {conn : Connection} (sound : conn.Sound s)
    (queues : s'.queues = s.queues) (grows : Grows s.database s'.database) : conn.Sound s' := by
  obtain ⟨queue, found, accepted, under⟩ := sound
  exact ⟨queue, queues ▸ found, fun req member => grows.keys (accepted req member),
    fun stage at_stage => (under stage at_stage).grow grows⟩

theorem InTurn.grow {s s' : State ε W} {c c' : Call ε W} (inTurn : InTurn s c)
    (queues : s'.queues = s.queues) (grows : Grows s.database s'.database)
    (args : c'.args = c.args) : InTurn s' c' := by
  obtain ⟨queue, n, req, member, here, key, before⟩ := inTurn
  exact ⟨queue, n, req, queues ▸ member, here, args ▸ key,
    fun earlier first => grows.keys (before earlier first)⟩

theorem Inv.nodup {s : State ε W} (inv : Inv s) {queue : List Request}
    (member : queue ∈ s.queues) : (queue.map Request.key).Nodup :=
  (List.nodup_flatten.1 inv.distinct).1 _ (List.mem_map_of_mem member)

/-- A key belongs to one queue. -/
theorem Inv.queue_unique {s : State ε W} (inv : Inv s) {queue queue' : List Request}
    (member : queue ∈ s.queues) (member' : queue' ∈ s.queues) {key : String}
    (here : key ∈ queue.map Request.key) (here' : key ∈ queue'.map Request.key) :
    queue = queue' := by
  by_contra differ
  have disjoint := List.pairwise_map.1 (List.nodup_flatten.1 inv.distinct).2
  have : Std.Symm fun q q' : List Request =>
      List.Disjoint (q.map Request.key) (q'.map Request.key) := ⟨fun _ _ apart => apart.symm⟩
  exact disjoint.forall member member' differ here here'

theorem Inv.converges {s : State ε W} (inv : Inv s) : s.Converges where
  inOrder queue member := by
    rw [State.committed, ← inv.database.keys]
    exact inv.inOrder queue member
  once queue member := by
    rw [State.committed, ← inv.database.keys]
    exact inv.database.keys_nodup.filter _
  replayed conn member queue found all := by
    obtain ⟨queue', found', accepted, -⟩ := inv.conns conn member
    cases found.symm.trans found'
    have member := List.mem_of_getElem? found
    rw [State.committed, ← inv.database.keys]
    refine (inv.inOrder queue member).complete (inv.nodup member) fun key asked => ?_
    obtain ⟨req, inside, rfl⟩ := List.mem_map.1 asked
    exact accepted req (by rwa [all, List.take_length])

/-! ## Steps -/

theorem Grows.refl (db : Mutate.State ε W) : Grows db db :=
  ⟨List.Subset.refl _, fun _ c here => ⟨c, here, rfl⟩⟩

theorem inv_setConn {s : State ε W} {j : Nat} {conn : Connection} (inv : Inv s)
    (sound : conn.Sound s) : Inv (s.setConn j conn) :=
  { inv with
    conns := fun other member => by
      rcases List.mem_or_eq_of_mem_set member with old | rfl
      · exact (inv.conns other old).grow rfl (Grows.refl _)
      · exact sound.grow rfl (Grows.refl _)
    calls := fun c member => (inv.calls c member).grow rfl (Grows.refl _) rfl }

theorem inv_connect {s : State ε W} (inv : Inv s) {client : Nat}
    (known : client < s.queues.length) :
    Inv { s with conns := s.conns ++ [{ client := client }] } :=
  { inv with
    conns := fun conn member => by
      rcases List.mem_append.1 member with old | new
      · exact (inv.conns conn old).grow rfl (Grows.refl _)
      · cases List.mem_singleton.1 new
        exact ⟨s.queues[client], List.getElem?_eq_getElem known, by simp, by simp⟩
    calls := fun c member => (inv.calls c member).grow rfl (Grows.refl _) rfl }

theorem Connection.Sound.restage {s : State ε W} {conn : Connection} (sound : conn.Sound s)
    {stage : Stage} (any : ∀ next, stage.Sound s.database next) :
    Connection.Sound s { conn with stage := some stage } := by
  obtain ⟨queue, found, accepted, -⟩ := sound
  refine ⟨queue, found, accepted, fun _ same => ?_⟩
  cases same
  exact any _

/-- Before `mutate.Apply` is called nothing is accepted. -/
theorem handleMutation_error {errors : Errors ε} {refusal : Option Refusal} {req : Request}
    {reply : Reply} (refused : handleMutation errors refusal req = .error reply) :
    ∀ id duplicate, reply ≠ .mutationOK id duplicate := by
  unfold handleMutation at refused
  split at refused
  · next refusal =>
      cases refused
      cases refusal <;> simp [Refusal.reply]
  · cases refused
    simp
  · cases refused

theorem handleMutation_ok {errors : Errors ε} {refusal : Option Refusal} {req : Request}
    {args : Args ε} (called : handleMutation errors refusal req = .ok args) :
    args.key = req.key := by
  unfold handleMutation at called
  split at called
  · cases called
  · cases called
  · cases called
    rfl

theorem request_eq_some {s : State ε W} {conn : Connection} {req : Request}
    (asked : s.request conn = some req) {queue : List Request}
    (found : s.queues[conn.client]? = some queue) : queue[conn.received]? = some req := by
  rwa [State.request, found, Option.bind_some] at asked

/-- The new call is the one for the request the connection is at. -/
theorem inv_called {s : State ε W} {j : Nat} {conn : Connection} {req : Request} {args : Args ε}
    (inv : Inv s) (sound : conn.Sound s) (asked : s.request conn = some req)
    (key : args.key = req.key) :
    Inv { s.setConn j { conn with stage := some (.handling s.database.calls.length) } with
      database := { s.database with calls := s.database.calls ++ [{ args := args }] } } := by
  obtain ⟨queue, found, accepted, -⟩ := sound
  have next := request_eq_some asked found
  have grows : Grows s.database
      { s.database with calls := s.database.calls ++ [{ args := args }] } :=
    ⟨List.Subset.refl _, fun _ c here => ⟨c, getElem?_append_of_some here _, rfl⟩⟩
  exact {
    distinct := inv.distinct
    database := Mutate.inv_call inv.database args
    conns := fun other member => by
      rcases List.mem_or_eq_of_mem_set member with old | rfl
      · exact (inv.conns other old).grow rfl grows
      · refine ⟨queue, found, accepted, fun _ same => ?_⟩
        cases same
        exact ⟨{ args := args }, req, by simp, next, key⟩
    calls := fun c member => by
      rcases List.mem_append.1 member with old | new
      · exact (inv.calls c old).grow rfl grows rfl
      · cases List.mem_singleton.1 new
        exact ⟨queue, conn.received, req, List.mem_of_getElem? found, next, key, accepted⟩
    inOrder := inv.inOrder }

theorem grows_on {db db' : Mutate.State ε W} {i : Nat} {a : Action ε W}
    (stepped : Mutate.step db (.on i a) = some db') : Grows db db' := by
  obtain ⟨c, c', here, args, calls, keys⟩ := step_on stepped
  refine ⟨?_, fun j d there => ?_⟩
  · rcases keys with same | more
    · exact same ▸ List.Subset.refl _
    · exact more ▸ List.subset_append_left _ _
  · rw [calls]
    by_cases own : j = i
    · subst own
      cases here.symm.trans there
      exact ⟨c', List.getElem?_set_self (List.getElem?_eq_some_iff.1 here).1, args⟩
    · exact ⟨d, (List.getElem?_set_ne (Ne.symm own)).trans there, rfl⟩

/-- Whichever call commits, it is the next one of its queue. -/
theorem inv_apply {s : State ε W} {db : Mutate.State ε W} {i : Nat} {a : Action ε W} (inv : Inv s)
    (stepped : Mutate.step s.database (.on i a) = some db) : Inv { s with database := db } := by
  have database : Mutate.Inv db := Mutate.inv_step inv.database stepped
  have grows := grows_on stepped
  obtain ⟨c, c', here, args, calls, keys⟩ := step_on stepped
  exact {
    distinct := inv.distinct
    database := database
    conns := fun conn member => (inv.conns conn member).grow rfl grows
    calls := fun d member => by
      rw [calls] at member
      rcases List.mem_or_eq_of_mem_set member with old | rfl
      · exact (inv.calls d old).grow rfl grows rfl
      · exact (inv.calls c (List.mem_of_getElem? here)).grow rfl grows args
    inOrder := fun queue member => by
      rcases keys with same | more
      · exact same ▸ inv.inOrder queue member
      rw [more]
      obtain ⟨queue', n, req, member', at_n, key, before⟩ := inv.calls c (List.mem_of_getElem? here)
      have own : c.args.key ∈ queue'.map Request.key :=
        List.mem_map.2 ⟨req, List.mem_of_getElem? at_n, key.symm⟩
      by_cases asked : c.args.key ∈ queue.map Request.key
      · cases inv.queue_unique member member' asked own
        have new : c.args.key ∉ s.database.keys := fun old => by
          have nodup := database.keys_nodup
          rw [more] at nodup
          exact (List.nodup_append.1 nodup).2.2 _ old _ (List.mem_singleton_self _) rfl
        refine (inv.inOrder queue member).next (inv.nodup member) (n := n)
          (by simp [at_n, key]) ?_ new
        intro y first
        rw [← List.map_take] at first
        obtain ⟨earlier, inside, rfl⟩ := List.mem_map.1 first
        exact before earlier inside
      · exact (inv.inOrder queue member).skip asked }

variable {errors}

theorem replyTo_mutationOK {req : Request} {r : Except (ApplyError ε) Result} {id : String}
    {duplicate : Bool} (ok : replyTo errors req r = .mutationOK id duplicate) :
    ∃ res, r = .ok res ∧ res.rejected = false := by
  unfold replyTo at ok
  split at ok
  · cases ok
  · next res =>
      split at ok
      · cases ok
      · next accepted => exact ⟨res, rfl, by simpa using accepted⟩

/-- A `mutation_ok` is for a key that is applied. -/
theorem Inv.accepted {s : State ε W} {conn : Connection} {req : Request} {id : String}
    {duplicate : Bool} (inv : Inv s) (sound : conn.Sound s) (asked : s.request conn = some req)
    (replied : s.reply errors conn req = some (.mutationOK id duplicate)) :
    req.key ∈ s.database.keys := by
  obtain ⟨queue, found, -, under⟩ := sound
  have next := request_eq_some asked found
  unfold State.reply at replied
  split at replied
  · next i handling =>
      obtain ⟨c, req', here, at_next, key⟩ := under _ handling
      cases next.symm.trans at_next
      rw [here, Option.map_some] at replied
      split at replied
      · next r returned =>
          obtain ⟨res, rfl, accepted⟩ := replyTo_mutationOK (Option.some.inj replied)
          exact key ▸ inv.database.applied here (Option.some.inj returned) accepted
      · cases replied
  · next reply refused =>
      exact absurd (Option.some.inj replied) (under _ refused id duplicate)
  · cases replied

theorem Connection.Sound.receive {s : State ε W} {conn : Connection} {req : Request}
    (sound : conn.Sound s) (asked : s.request conn = some req)
    (applied : req.key ∈ s.database.keys) :
    Connection.Sound s { conn with received := conn.received + 1, stage := none } := by
  obtain ⟨queue, found, accepted, -⟩ := sound
  have next := request_eq_some asked found
  refine ⟨queue, found, fun earlier first => ?_, by simp⟩
  rw [List.take_add_one, next] at first
  rcases List.mem_append.1 first with old | new
  · exact accepted earlier old
  · cases List.mem_singleton.1 new
    exact applied

theorem inv_step {s t : State ε W} {e : Event ε W} (inv : Inv s)
    (stepped : step errors s e = some t) : Inv t := by
  cases e with
  | connect client =>
      simp only [step] at stepped
      split at stepped
      · next known =>
          cases stepped
          exact inv_connect inv known
      · cases stepped
  | send j =>
      obtain ⟨conn, here, rest⟩ := Option.bind_eq_some_iff.1 stepped
      obtain ⟨req, -, rest⟩ := Option.bind_eq_some_iff.1 rest
      have sound := inv.conns conn (List.mem_of_getElem? here)
      split at rest
      · cases rest
        exact inv_setConn inv (sound.restage fun _ => trivial)
      · cases rest
  | handle j refusal =>
      obtain ⟨conn, here, rest⟩ := Option.bind_eq_some_iff.1 stepped
      obtain ⟨req, asked, rest⟩ := Option.bind_eq_some_iff.1 rest
      have sound := inv.conns conn (List.mem_of_getElem? here)
      split at rest
      · next refused =>
          cases rest
          exact inv_setConn inv (sound.restage fun _ => handleMutation_error refused)
      · next called =>
          cases rest
          exact inv_called inv sound asked (handleMutation_ok called)
      · cases rest
  | apply i a =>
      obtain ⟨db, acted, rest⟩ := Option.bind_eq_some_iff.1 stepped
      cases rest
      exact inv_apply inv acted
  | receive j =>
      obtain ⟨conn, here, rest⟩ := Option.bind_eq_some_iff.1 stepped
      obtain ⟨req, asked, rest⟩ := Option.bind_eq_some_iff.1 rest
      have sound := inv.conns conn (List.mem_of_getElem? here)
      split at rest
      · next replied =>
          cases rest
          exact inv_setConn inv (sound.receive asked (inv.accepted sound asked replied))
      · cases rest
  | die j =>
      obtain ⟨conn, here, rest⟩ := Option.bind_eq_some_iff.1 stepped
      cases rest
      exact inv_setConn inv (inv.conns conn (List.mem_of_getElem? here))

theorem inv_start {s : State ε W} (start : Start s) : Inv s := by
  obtain ⟨distinct, fresh⟩ := start
  rw [fresh]
  exact {
    distinct := distinct
    database := Mutate.inv_init
    conns := by simp
    calls := by simp
    inOrder := fun queue _ => InOrder.nil _ }

/-- **Offline replay converges.**  However connections die and late requests race with
the replay, each client's committed mutations are a first part of its queue, in queue
order and once each; a replay that was accepted to its end has the whole queue
committed. -/
theorem replay_converges {s : State ε W} (reached : (machine errors).Reachable s) :
    s.Converges := by
  have inv : Inv s := by
    refine Machine.reachable_induction (P := Inv) ?_ ?_ reached
    · exact fun _ start => inv_start start
    · exact fun _ _ _ inv stepped => inv_step inv stepped
  exact inv.converges

end Machine

/-! ## A request that outlives its connection -/

def Request.upsert (id key : String) : Request := ⟨id, "item.upsert", key⟩

/-- A handler's error is its text. -/
def Errors.plain : Errors String := ⟨fun _ => false, fun _ => "", id⟩

/-- A call whose handler writes `n`, from its transaction to its return. -/
def committing (n : Nat) : List (Mutate.Action String Nat) :=
  [.begin none, .insert, .write [n], .handlerReturn none, .commit, .settle true, .commitReply]

namespace LateRequest

def start : State String Nat :=
  { queues := [[.upsert "req-1" "a-1", .upsert "req-2" "a-2"], [.upsert "req-3" "b-1"]] }

def applied (i n : Nat) : List (Event String Nat) := (committing n).map (.apply i)

/-- Client 0 is killed while its second mutation is under way.  On the new connection
the first one is a duplicate, and the second commits before the old request is read. -/
def schedule : List (Event String Nat) :=
  List.flatten
    [[.connect 0, .send 0, .handle 0 none], applied 0 1, [.receive 0, .send 0, .die 0],
      [.connect 0, .send 1, .handle 1 none, .apply 1 (.begin none), .apply 1 .insert, .receive 1,
        .send 1, .handle 1 none],
      [.connect 1, .send 2, .handle 2 none], applied 3 3, [.receive 2],
      applied 2 2, [.handle 0 none, .apply 4 (.begin none), .apply 4 .insert, .receive 1]]

theorem replay_converges_late :
    ∃ s : State String Nat, (machine .plain).Reachable s ∧
      s.database.keys = ["a-1", "b-1", "a-2"] ∧ s.conns.map Connection.received = [1, 2, 1] ∧
      s.Converges := by
  have replay : ((machine .plain).run start schedule).map (fun s =>
      (s.database.keys, s.conns.map Connection.received)) =
        some (["a-1", "b-1", "a-2"], [1, 2, 1]) := by
    decide +kernel
  obtain ⟨s, ran, ends⟩ := Option.map_eq_some_iff.1 replay
  obtain ⟨keys, received⟩ := Prod.mk.inj ends
  have begins : (machine .plain).init start := ⟨by decide, rfl⟩
  have reached : (machine .plain).Reachable s := (Machine.Reachable.init begins).run ran
  exact ⟨s, reached, keys, received, replay_converges reached⟩

end LateRequest

end Tether.Replay
