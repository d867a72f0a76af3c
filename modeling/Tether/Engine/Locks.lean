/-
# Tether.Engine.Locks — which goroutine waits for which

The engine, its sessions, connections, streams and logs have a mutex each, queries borrow
connections from a pool of limited size, and `Run` waits for the consumer it has started.
Here every function of the source is the `Script` of what it locks, borrows and waits for;
branches that depend on data are left open (`choice`), loops run over anything (`forEach`).

Fan-out reads rows with a borrowed connection and takes `Engine.mu` for each of them, so
the pool ranks below `Engine.mu`, and nobody may wait for a connection, let alone for all of
them, with `Engine.mu` in hand.  `Close` is written that way: it lets go of the mutex before
it waits for the pool.  With this order of ranks every script fits, and no number of
goroutines of any kind can block each other for good (`never_deadlocks`).

The locks of the tables are taken as they appear to a transaction: the inserted row of
`mutation_keys` and the row of `checkpoint` are locked until it ends.  The handler of
mutations and the other callbacks of the host are assumed to take no lock of the engine.
-/
import Mathlib.Data.Fin.VecNotation
import Mathlib.Tactic.FinCases
import Tether.Lib.LockOrder

namespace Tether.Locks

open Tether.Lib.Locks Tether.Lib.Locks.Script

set_option autoImplicit false

/-- Numbers stand for connections (and their sessions), streams, keys of mutations and
calls of `runConsumerCycle`. -/
inductive Resource where
  /-- `errCh`, held by the consumer of a cycle until it returns. -/
  | errCh (cycle : Nat)
  | pool
  | mutationKey (key : Nat)
  | checkpoint
  | engineMu
  | slotLagMu
  | registryMu
  | sessionMu (conn : Nat)
  | hubMu
  /-- `Conn.once`: others wait while the first caller of `shutdown` is in it. -/
  | once (conn : Nat)
  | sendMu (conn : Nat)
  | instanceMu (stream : Nat)
  | logMu (stream : Nat)
  deriving DecidableEq

/-- Readers of a `sync.RWMutex` take one share of this many. -/
def rwmutexMaxReaders : Nat := 2 ^ 30

@[simp] def rank : Resource → Nat
  | .errCh _ => 0
  | .pool => 1
  | .mutationKey _ | .checkpoint => 2
  | .engineMu => 3
  | .sessionMu _ | .slotLagMu | .registryMu | .hubMu | .once _ | .instanceMu _ => 4
  | .sendMu _ | .logMu _ => 5

/-- A pool of `spare + 1` connections. -/
def order (spare : Nat) : Order Resource where
  cap
    | .pool => spare + 1
    | .slotLagMu => rwmutexMaxReaders
    | _ => 1
  rank := rank

/-- `Lock`, the body, `Unlock`. -/
def holding (r : Resource) (body : Script Resource) : Script Resource := locked r 1 body

def briefly (r : Resource) : Script Resource := holding r skip

/-- The rest of a function after a check that may return. -/
def maybe (body : Script Resource) : Script Resource := choice skip body

/-! ## Sessions, connections, streams -/

namespace Session

abbrev touch (c : Nat) : Script Resource := briefly (.sessionMu c)

abbrev isIdle (c : Nat) : Script Resource := briefly (.sessionMu c)

abbrev setResume (c : Nat) : Script Resource := briefly (.sessionMu c)

abbrev resumeAt (c : Nat) : Script Resource := briefly (.sessionMu c)

abbrev addShape (c : Nat) : Script Resource := briefly (.sessionMu c)

abbrev hasShape (c : Nat) : Script Resource := briefly (.sessionMu c)

abbrev clearMembership (c : Nat) : Script Resource := briefly (.sessionMu c)

end Session

namespace Conn

/-- The send itself never waits. -/
def enqueue (c : Nat) : Script Resource := maybe (briefly (.sendMu c))

def shutdown (c : Nat) : Script Resource := maybe (holding (.once c) (briefly (.sendMu c)))

def sendBye (c : Nat) : Script Resource := shutdown c

def close (c : Nat) : Script Resource := shutdown c

end Conn

namespace Hub

abbrev add : Script Resource := briefly .hubMu

abbrev remove : Script Resource := briefly .hubMu

end Hub

namespace Registry

def register : Script Resource := maybe (briefly .registryMu)

abbrev get : Script Resource := briefly .registryMu

abbrev all : Script Resource := briefly .registryMu

end Registry

namespace Log

abbrev halt (k : Nat) : Script Resource := briefly (.logMu k)

abbrev err (k : Nat) : Script Resource := briefly (.logMu k)

abbrev append (k : Nat) : Script Resource := briefly (.logMu k)

abbrev after (k : Nat) : Script Resource := briefly (.logMu k)

abbrev lastOffset (k : Nat) : Script Resource := briefly (.logMu k)

end Log

namespace Instance

/-- The cache entry, and then the event. -/
def write (k : Nat) : Script Resource := block [briefly (.instanceMu k), Log.append k]

def lookup (k : Nat) : Script Resource := maybe (briefly (.instanceMu k))

def checkFingerprint (k : Nat) : Script Resource := maybe (briefly (.instanceMu k))

def applyInsert (k : Nat) : Script Resource := maybe (write k)

def applyDelete (k : Nat) : Script Resource := block [lookup k, maybe (write k)]

def applyUpdate (k : Nat) : Script Resource := block [lookup k, maybe (write k)]

def apply (k : Nat) : Script Resource :=
  block [Log.err k, maybe (block [briefly (.instanceMu k), maybe (block [checkFingerprint k,
    choice (Log.halt k) (maybe (choice (applyInsert k) (choice (applyDelete k)
      (applyUpdate k))))])])]

def loadSnapshot (k : Nat) : Script Resource :=
  block [Log.err k, maybe (block [briefly (.instanceMu k), loop (maybe (write k))])]

abbrev materialized (k : Nat) : Script Resource := briefly (.instanceMu k)

end Instance

/-! ## The database -/

/-- One statement on a connection of the pool. -/
abbrev query : Script Resource := briefly .pool

namespace Wal

def ensureSchema : Script Resource := query

def ensurePublication : Script Resource :=
  maybe (block [query, maybe (choice query (loop (block [query, maybe query])))])

def terminateSlotBackend : Script Resource := block [query, loop query]

def dropSlot : Script Resource := block [terminateSlotBackend, maybe query]

def slotLagBytes : Script Resource := maybe query

def loadCheckpoint : Script Resource := query

def persist : Script Resource := holding .pool (maybe (briefly .checkpoint))

/-- `Run` of a consumer: it holds no connection while it waits for messages. -/
def consumerRun : Script Resource := block [loadCheckpoint, loop (maybe persist)]

end Wal

namespace Mutate

def ensureSchema : Script Resource := maybe query

/-- The handler runs inside the transaction that has inserted the key. -/
def apply (key : Nat) : Script Resource := maybe (holding .pool (briefly (.mutationKey key)))

end Mutate

namespace Snapshot

def take : Script Resource := maybe query

end Snapshot

/-! ## The engine -/

namespace Engine

variable (c : Nat)

def sendErr : Script Resource := maybe (Conn.enqueue c)

def enqueueChange : Script Resource := maybe (Conn.enqueue c)

def disconnect : Script Resource := Conn.sendBye c

def ensurePool : Script Resource := briefly .engineMu

def reply : Script Resource := maybe (Conn.enqueue c)

def handleMutation (key : Nat) : Script Resource :=
  choice (sendErr c) (block [ensurePool, choice (sendErr c) (block [Mutate.ensureSchema,
    choice (sendErr c) (choice (reply c) (block [Mutate.apply key,
      choice (sendErr c) (reply c)]))])])

/-- A snapshot message, and the bye of a client that is too slow for it. -/
def sendSnapshot (k : Nat) : Script Resource :=
  maybe (block [Conn.enqueue c, choice (disconnect c) (Log.lastOffset k)])

def resume : Script Resource := block [loop (enqueueChange c), maybe (disconnect c)]

def takeSnapshot (k : Nat) : Script Resource :=
  maybe (block [Snapshot.take, maybe (block [Instance.loadSnapshot k, maybe (block [
    briefly .engineMu, Log.lastOffset k, sendSnapshot c k])])])

/-- `old` is the stream found under the key, `new` the one that replaces it. -/
def subscribeShape (old new : Nat) : Script Resource :=
  block [Session.resumeAt c, briefly .engineMu,
    choice (block [Log.after old, choice (resume c) (block [sendErr c, takeSnapshot c new])])
      (choice (block [Log.lastOffset old, Instance.materialized old, sendSnapshot c old])
        (takeSnapshot c new))]

def handleSubscribe : Script Resource :=
  block [ensurePool, maybe (loop (block [Registry.get,
    choice (sendErr c) (any fun old => any fun new =>
      block [subscribeShape c old new, maybe (Session.addShape c)])]))]

/-- The loop over the client's messages, and the deferred calls. -/
def serveWS : Script Resource :=
  maybe (block [Hub.add, briefly .engineMu,
    loop (block [Session.touch c, choice (sendErr c) (choice (maybe (Session.setResume c))
      (choice (block [handleSubscribe c, maybe (sendErr c)])
        (any fun key => handleMutation c key)))]),
    briefly .engineMu, Conn.close c, Hub.remove])

def dispatchChange : Script Resource :=
  block [briefly .engineMu,
    forEach fun k => block [Instance.apply k,
      maybe (forEach fun c => block [Session.hasShape c, maybe (sendErr c)])],
    forEach fun c => loop (block [Session.hasShape c,
      maybe (loop (block [enqueueChange c, maybe (disconnect c)]))])]

/-- The rows are read from an open query: its connection is held throughout. -/
def fanOutNewChanges : Script Resource :=
  block [briefly .engineMu, maybe (holding .pool (loop (maybe dispatchChange)))]

def sweepIdleClients : Script Resource :=
  maybe (block [holding .engineMu (forEach Session.isIdle),
    forEach fun c => block [disconnect c, Hub.remove]])

def reportClientCount : Script Resource := maybe (briefly .engineMu)

def slotLagBytes : Script Resource :=
  block [briefly .slotLagMu, maybe (block [briefly .engineMu, maybe Wal.slotLagBytes])]

def broadcastMustResnapshot : Script Resource :=
  maybe (block [briefly .engineMu, forEach fun c => block [Conn.enqueue c, maybe (disconnect c)]])

def resetFanoutCursor : Script Resource := query

def handleSlotLagExceeded : Script Resource :=
  block [broadcastMustResnapshot, holding .engineMu (forEach Session.clearMembership),
    Wal.dropSlot, maybe (block [query, maybe resetFanoutCursor])]

/-- `<-errCh`, once the consumer has been cancelled. -/
def awaitConsumer (cycle : Nat) : Script Resource := briefly (.errCh cycle)

def runConsumerCycle (cycle : Nat) : Script Resource :=
  maybe (block [
    loop (block [fanOutNewChanges, sweepIdleClients, reportClientCount, slotLagBytes]),
    maybe (block [awaitConsumer cycle, maybe handleSlotLagExceeded])])

/-- The number of cycles depends on how often the slot lags. -/
def run (cycles : Nat) : Script Resource :=
  block [ensurePool, maybe (block [Wal.ensureSchema, maybe (block [Mutate.ensureSchema,
    maybe (block [Registry.all, maybe (block [Wal.ensurePublication,
      block ((List.range cycles).map runConsumerCycle)])])])])]

/-- `pool.Close` waits for all connections; the mutex is free again by then. -/
def close (spare : Nat) : Script Resource :=
  block [briefly .engineMu, maybe (locked .pool (spare + 1) skip)]

def shape : Script Resource := Registry.register

end Engine

/-! ## Every script keeps to the ranks -/

section Fits

variable {spare k : Nat} {r : Resource} {body : Script Resource}

@[simp] theorem order_rank : (order spare).rank r = rank r := rfl

@[simp] theorem order_cap_pool : (order spare).cap .pool = spare + 1 := rfl

theorem one_le_cap (spare : Nat) (r : Resource) : 1 ≤ (order spare).cap r := by
  cases r <;> simp [order, rwmutexMaxReaders]

@[simp] theorem fits_holding :
    (holding r body).Fits (order spare) k ↔ k ≤ rank r ∧ body.Fits (order spare) (rank r + 1) := by
  simp [holding, one_le_cap]

@[simp] theorem fits_briefly : (briefly r).Fits (order spare) k ↔ k ≤ rank r := by
  simp [briefly]

@[simp] theorem fits_maybe : (maybe body).Fits (order spare) k ↔ body.Fits (order spare) k := by
  simp [maybe]

variable {c i : Nat}

@[simp] theorem fits_enqueue : (Conn.enqueue c).Fits (order spare) k ↔ k ≤ 5 := by
  simp [Conn.enqueue]

@[simp] theorem fits_shutdown : (Conn.shutdown c).Fits (order spare) k ↔ k ≤ 4 := by
  simp [Conn.shutdown]

@[simp] theorem fits_disconnect : (Engine.disconnect c).Fits (order spare) k ↔ k ≤ 4 :=
  fits_shutdown

@[simp] theorem fits_sendErr : (Engine.sendErr c).Fits (order spare) k ↔ k ≤ 5 := by
  simp [Engine.sendErr]

@[simp] theorem fits_enqueueChange : (Engine.enqueueChange c).Fits (order spare) k ↔ k ≤ 5 := by
  simp [Engine.enqueueChange]

@[simp] theorem fits_write : (Instance.write i).Fits (order spare) k ↔ k ≤ 4 := by
  simp [Instance.write]
  omega

@[simp] theorem fits_apply : (Instance.apply i).Fits (order spare) k ↔ k ≤ 4 := by
  simp [Instance.apply, Instance.checkFingerprint, Instance.applyInsert, Instance.applyDelete,
    Instance.applyUpdate, Instance.lookup]
  omega

@[simp] theorem fits_loadSnapshot : (Instance.loadSnapshot i).Fits (order spare) k ↔ k ≤ 4 := by
  simp [Instance.loadSnapshot]
  omega

@[simp] theorem fits_dispatchChange : Engine.dispatchChange.Fits (order spare) k ↔ k ≤ 3 := by
  simp [Engine.dispatchChange]
  omega

/-- With a connection in hand fan-out may still take `Engine.mu`. -/
@[simp] theorem fits_fanOutNewChanges :
    Engine.fanOutNewChanges.Fits (order spare) k ↔ k ≤ 1 := by
  simp [Engine.fanOutNewChanges]
  omega

@[simp] theorem fits_sendSnapshot : (Engine.sendSnapshot c i).Fits (order spare) k ↔ k ≤ 4 := by
  simp [Engine.sendSnapshot]
  omega

@[simp] theorem fits_takeSnapshot : (Engine.takeSnapshot c i).Fits (order spare) k ↔ k ≤ 1 := by
  simp [Engine.takeSnapshot, Snapshot.take]
  omega

@[simp] theorem fits_subscribeShape {old new : Nat} :
    (Engine.subscribeShape c old new).Fits (order spare) k ↔ k ≤ 1 := by
  simp [Engine.subscribeShape, Engine.resume]
  omega

@[simp] theorem fits_handleSubscribe :
    (Engine.handleSubscribe c).Fits (order spare) k ↔ k ≤ 1 := by
  simp [Engine.handleSubscribe, Engine.ensurePool]
  omega

@[simp] theorem fits_handleMutation {key : Nat} :
    (Engine.handleMutation c key).Fits (order spare) k ↔ k ≤ 1 := by
  simp [Engine.handleMutation, Engine.ensurePool, Engine.reply, Mutate.ensureSchema, Mutate.apply]
  omega

@[simp] theorem fits_serveWS : (Engine.serveWS c).Fits (order spare) k ↔ k ≤ 1 := by
  simp [Engine.serveWS, Conn.close]
  omega

@[simp] theorem fits_sweepIdleClients :
    Engine.sweepIdleClients.Fits (order spare) k ↔ k ≤ 3 := by
  simp [Engine.sweepIdleClients]
  omega

@[simp] theorem fits_slotLagBytes : Engine.slotLagBytes.Fits (order spare) k ↔ k ≤ 1 := by
  simp [Engine.slotLagBytes, Wal.slotLagBytes]
  omega

@[simp] theorem fits_handleSlotLagExceeded :
    Engine.handleSlotLagExceeded.Fits (order spare) k ↔ k ≤ 1 := by
  simp [Engine.handleSlotLagExceeded, Engine.broadcastMustResnapshot, Wal.dropSlot,
    Wal.terminateSlotBackend, Engine.resetFanoutCursor]
  omega

/-- With nothing in hand `Run` may wait for its consumer. -/
@[simp] theorem fits_runConsumerCycle :
    (Engine.runConsumerCycle i).Fits (order spare) k ↔ k = 0 := by
  simp [Engine.runConsumerCycle, Engine.reportClientCount, Engine.awaitConsumer]
  omega

theorem fits_run (cycles : Nat) : (Engine.run cycles).Fits (order spare) 0 := by
  simp [Engine.run, Engine.ensurePool, Wal.ensureSchema, Mutate.ensureSchema,
    Wal.ensurePublication]

theorem fits_consumerRun : Wal.consumerRun.Fits (order spare) 1 := by
  simp [Wal.consumerRun, Wal.loadCheckpoint, Wal.persist]

theorem fits_close : (Engine.close spare).Fits (order spare) 0 := by
  simp [Engine.close]

end Fits

/-! ## All goroutines together -/

inductive Goroutine where
  | serveWS (conn : Nat)
  | run (cycles : Nat)
  /-- The consumer that `runConsumerCycle` starts. -/
  | consumer (cycle : Nat)
  | close
  | shape

namespace Goroutine

def script (spare : Nat) : Goroutine → Script Resource
  | .serveWS c => Engine.serveWS c
  | .run cycles => Engine.run cycles
  | .consumer _ => Wal.consumerRun
  | .close => Engine.close spare
  | .shape => Engine.shape

/-- A consumer has `errCh` from its start to its return. -/
def held : Goroutine → Resource → Nat
  | .consumer cycle => Function.update (fun _ => 0) (.errCh cycle) 1
  | _ => fun _ => 0

def returns : Goroutine → List (Op Resource)
  | .consumer cycle => [.release (.errCh cycle) 1]
  | _ => []

/-- Every way a goroutine can go keeps to the ranks. -/
theorem ordered {spare : Nat} (g : Goroutine) {w : List (Op Resource)}
    (trace : (g.script spare).Trace w) : Ordered (order spare) g.held (w ++ g.returns) := by
  cases g with
  | serveWS c => exact trace.ordered (k := 0) (by simp [script]) (below_zero 0) fun _ => rfl
  | run cycles => exact trace.ordered (k := 0) (fits_run cycles) (below_zero 0) fun _ => rfl
  | close => exact trace.ordered (k := 0) fits_close (below_zero 0) fun _ => rfl
  | shape =>
      exact trace.ordered (k := 0) (by simp [script, Engine.shape, Registry.register])
        (below_zero 0) fun _ => rfl
  | consumer cycle =>
      refine trace.ordered (k := 1) fits_consumerRun (fun r has => ?_) ⟨?_, ?_⟩
      · by_cases same : r = .errCh cycle
        · subst same
          exact Nat.one_pos
        · simp [held, Function.update_of_ne same] at has
      · simp [held]
      · intro r
        by_cases same : r = .errCh cycle
        · simp [held, same]
        · simp [held, Function.update_of_ne same]

end Goroutine

variable {ι : Type} [Fintype ι] [DecidableEq ι]

/-- Each goroutine is before its first operation, on one of the ways it can go. -/
structure Starts (spare : Nat) (g : ι → Goroutine) (s : System ι Resource) : Prop where
  held : ∀ i, s.held i = (g i).held
  goes : ∀ i, ∃ w, ((g i).script spare).Trace w ∧ s.rest i = w ++ (g i).returns

omit [Fintype ι] [DecidableEq ι] in
theorem Starts.orderly {spare : Nat} {g : ι → Goroutine} {s : System ι Resource}
    (starts : Starts spare g s) : s.Orderly (order spare) := by
  intro i
  obtain ⟨w, trace, rest⟩ := starts.goes i
  rw [starts.held i, rest]
  exact (g i).ordered trace

/-- **The goroutines never block each other for good.**  For any number of connections in
the pool and any number of goroutines that serve clients, run the engine, consume, close it
or register shapes: whatever they have done, some goroutine can take its next step unless
all have returned, and there is a schedule that brings all of them to their end.  The
callbacks of the host take no lock of the engine in these scripts. -/
theorem never_deadlocks {spare : Nat} {g : ι → Goroutine} {s t : System ι Resource}
    (starts : Starts spare g s) {schedule : List ι}
    (ran : (System.machine (order spare) ι).run s schedule = some t) :
    (t.Finished ∨ ∃ i, (t.step (order spare) i).isSome) ∧
      schedule.length + t.remaining = s.remaining ∧
      ∃ more u, (System.machine (order spare) ι).run t more = some u ∧ u.Finished := by
  have orderly := System.orderly_run starts.orderly ran
  refine ⟨?_, System.run_length ran, System.completes orderly⟩
  by_cases finished : t.Finished
  · exact .inl finished
  · exact .inr (System.progress orderly finished)

/-! ## A tick of fan-out beside `Close` -/

namespace Tick

def lock (r : Resource) : List (Op Resource) := [.acquire r 1, .release r 1]

theorem trace_briefly (r : Resource) : (briefly r).Trace (lock r) := .locked .skip

theorem trace_maybe {body : Script Resource} {w : List (Op Resource)} (trace : body.Trace w) :
    (maybe body).Trace w := .right trace

theorem trace_maybe_not {body : Script Resource} : (maybe body).Trace [] := .left .skip

theorem trace_nil : (block []).Trace ([] : List (Op Resource)) := .skip

theorem trace_cons {body : Script Resource} {rest : List (Script Resource)}
    {w w' all : List (Op Resource)} (first : body.Trace w) (later : (block rest).Trace w')
    (split : all = w ++ w') : (block (body :: rest)).Trace all := split ▸ .seq first later

theorem trace_once {body : Script Resource} {w : List (Op Resource)} (first : body.Trace w) :
    (loop body).Trace w := by
  have trace := Trace.again first .done
  rwa [List.append_nil] at trace

/-- A change that no stream and no session cares about. -/
theorem trace_dispatchChange : Engine.dispatchChange.Trace (lock .engineMu) :=
  trace_cons (trace_briefly _) (trace_cons .done (trace_cons .done trace_nil rfl) rfl) rfl

def fanOut : List (Op Resource) :=
  lock .engineMu ++ .acquire .pool 1 :: (lock .engineMu ++ [.release .pool 1])

theorem trace_fanOutNewChanges : Engine.fanOutNewChanges.Trace fanOut :=
  trace_cons (trace_briefly _) (trace_cons
    (trace_maybe (.locked (trace_once (trace_maybe trace_dispatchChange)))) trace_nil rfl) rfl

theorem trace_slotLagBytes : Engine.slotLagBytes.Trace (lock .slotLagMu) :=
  trace_cons (trace_briefly _) (trace_cons trace_maybe_not trace_nil rfl) rfl

/-- One tick, and then the consumer is stopped. -/
theorem trace_runConsumerCycle : (Engine.runConsumerCycle 0).Trace
    (fanOut ++ lock .slotLagMu ++ lock (.errCh 0)) := by
  refine trace_maybe (trace_cons (w := fanOut ++ lock .slotLagMu) (trace_once ?_) (trace_cons
    (w := lock (.errCh 0)) (trace_maybe ?_) trace_nil rfl) rfl)
  · exact trace_cons trace_fanOutNewChanges (trace_cons trace_maybe_not (trace_cons
      trace_maybe_not (trace_cons trace_slotLagBytes trace_nil rfl) rfl) rfl) rfl
  · exact trace_cons (trace_briefly _) (trace_cons trace_maybe_not trace_nil rfl) rfl

def ticks : List (Op Resource) :=
  lock .engineMu ++ lock .pool ++ lock .pool ++ lock .registryMu ++
    (fanOut ++ lock .slotLagMu ++ lock (.errCh 0))

theorem trace_run : (Engine.run 1).Trace ticks := by
  have cycles : (block ((List.range 1).map Engine.runConsumerCycle)).Trace
      (fanOut ++ lock .slotLagMu ++ lock (.errCh 0)) :=
    trace_cons trace_runConsumerCycle trace_nil rfl
  have published : (block [Wal.ensurePublication,
      block ((List.range 1).map Engine.runConsumerCycle)]).Trace
        (fanOut ++ lock .slotLagMu ++ lock (.errCh 0)) :=
    trace_cons trace_maybe_not (trace_cons cycles trace_nil rfl) rfl
  have listed := trace_cons (trace_briefly .registryMu) (trace_cons (trace_maybe published)
    trace_nil rfl) rfl
  have mutations := trace_cons (trace_maybe (trace_briefly .pool)) (trace_cons
    (trace_maybe listed) trace_nil rfl) rfl
  have schema := trace_cons (trace_briefly .pool) (trace_cons (trace_maybe mutations)
    trace_nil rfl) rfl
  exact trace_cons (trace_briefly .engineMu) (trace_cons (trace_maybe schema) trace_nil rfl) rfl

def closes : List (Op Resource) := lock .engineMu ++ [.acquire .pool 1, .release .pool 1]

theorem trace_close : (Engine.close 0).Trace closes :=
  trace_cons (trace_briefly _) (trace_cons (trace_maybe (.locked .skip)) trace_nil rfl) rfl

theorem trace_consumerRun : Wal.consumerRun.Trace (lock .pool) :=
  trace_cons (trace_briefly _) (trace_cons .done trace_nil rfl) rfl

def goroutines : Fin 3 → Goroutine := ![.run 1, .close, .consumer 0]

/-- `Run`, `Close` and a consumer, with one connection in the pool. -/
def before : System (Fin 3) Resource where
  rest := ![ticks, closes, lock .pool ++ [.release (.errCh 0) 1]]
  held i := (goroutines i).held

theorem before_starts : Starts 0 goroutines before where
  held _ := rfl
  goes i := by
    fin_cases i
    · exact ⟨_, trace_run, rfl⟩
    · exact ⟨_, trace_close, rfl⟩
    · exact ⟨_, trace_consumerRun, rfl⟩

/-- Fan-out holds the connection, and `Close` waits for it. -/
theorem never_deadlocks_closing :
    ∃ t, (System.machine (order 0) (Fin 3)).run before (List.replicate 11 0 ++ [1, 1]) = some t ∧
      (t.step (order 0) 1).isNone ∧ (t.Finished ∨ ∃ i, (t.step (order 0) i).isSome) ∧
      ∃ more u, (System.machine (order 0) (Fin 3)).run t more = some u ∧ u.Finished := by
  have waits : ((System.machine (order 0) (Fin 3)).run before
      (List.replicate 11 0 ++ [1, 1])).map (fun t => (t.step (order 0) 1).isNone) =
        some true := by
    decide +kernel
  obtain ⟨t, ran, blocked⟩ := Option.map_eq_some_iff.1 waits
  obtain ⟨moves, -, ends⟩ := never_deadlocks before_starts ran
  exact ⟨t, ran, blocked, moves, ends⟩

/-- With the mutex in hand until the pool is closed, the two would wait for each other. -/
example : ((System.machine (order 0) (Fin 2)).run
    ⟨![fanOut, .acquire .engineMu 1 :: (lock .pool ++ [.release .engineMu 1])], fun _ => 0⟩
    [0, 0, 0, 1]).map (fun t => decide (∀ i, (t.step (order 0) i).isNone)) = some true := by
  decide +kernel

end Tick

end Tether.Locks
