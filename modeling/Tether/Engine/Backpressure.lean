/-
# Tether.Engine.Backpressure — a client that does not read

`Enqueue` never blocks, and a client whose buffer is full is disconnected.  Two things
follow for everybody else.

* What the goroutine of `Run` begins with a copy of the streams and sessions it ends after a
  number of steps that depends on these copies only, whatever the sessions, their pumps and
  the sweep do in between, and it waits nowhere but in the `SendBye` of a client that it
  parts with (`dispatch_waits_parting`).  How long a shutdown takes is not modelled: the
  source gives the frame two seconds, and then closes the websocket.
* What the engine does for the other clients does not depend on the connection: with any
  other connection in its place the rest of the system has the same runs
  (`slow_client_isolated`).  It says what they are sent and not when.

For the second, `Apart i` relates states that differ at most in the connection of client
`i` and in how far fan-out has got with it.  The two runs are not in step: a refused
message ends the messages of a change to that client and the client is shut down, an
accepted one does neither (`Drains`).
-/
import Tether.Engine.Live
import Tether.Lib.Simulation

namespace Tether.Live

open Lib Wal Shape Transport

set_option autoImplicit false

variable {C : Type} {u : Setup C} {s s' t : State C}

/-! ## Where fan-out waits -/

/-- The goroutine of `Run` begins something. -/
def Ev.starts : Ev C → Bool
  | .copy _ _ _ | .recover _ | .sweep _ => true
  | _ => false

def Ev.isRun : Ev C → Bool
  | .run => true
  | _ => false

/-- The round is about instances and clients that exist. -/
structure Round.Placed (r : Round) (instances clients : Nat) : Prop where
  streams : ∀ entry ∈ r.streams, entry.2 < instances
  listed : ∀ j ∈ r.listed, j < clients

def Rest.Placed (clients : Nat) : Rest → Prop
  | .idle => True
  | .delivering todo => ∀ due ∈ todo, due.1 < clients
  | .broadcasting left => ∀ j ∈ left, j < clients

def Work.Placed (instances clients : Nat) : Work → Prop
  | .idle => True
  | .applying r => r.Placed instances clients
  | .appending r _ a _ => r.Placed instances clients ∧ a < instances
  | .notifying r _ _ left => r.Placed instances clients ∧ ∀ j ∈ left, j < clients
  | .telling r _ _ j left =>
      r.Placed instances clients ∧ j < clients ∧ ∀ j ∈ left, j < clients
  | .delivering todo => ∀ due ∈ todo, due.1 < clients
  | .sending j _ todo => j < clients ∧ ∀ due ∈ todo, due.1 < clients
  | .broadcasting left => ∀ j ∈ left, j < clients
  | .leaving j _ rest | .parting j rest => j < clients ∧ rest.Placed clients

structure Placed (s : State C) : Prop where
  streams : AllStreams (fun _ => True) s
  work : s.work.Placed s.heap.length s.clients.length

theorem Round.Placed.mono {r : Round} {instances instances' clients clients' : Nat}
    (placed : r.Placed instances clients) (more : instances ≤ instances')
    (others : clients ≤ clients') : r.Placed instances' clients' :=
  ⟨fun entry member => (placed.streams entry member).trans_le more,
    fun j member => (placed.listed j member).trans_le others⟩

theorem Rest.Placed.mono {rest : Rest} {clients clients' : Nat} (placed : rest.Placed clients)
    (others : clients ≤ clients') : rest.Placed clients' := by
  cases rest with
  | idle => trivial
  | delivering todo => exact fun due member => (placed due member).trans_le others
  | broadcasting left => exact fun j member => (placed j member).trans_le others

theorem Rest.Placed.work {rest : Rest} {clients : Nat} (placed : rest.Placed clients)
    (instances : Nat) : rest.work.Placed instances clients := by
  cases rest with
  | idle => trivial
  | delivering todo => exact placed
  | broadcasting left => exact placed

theorem Work.Placed.mono {w : Work} {instances instances' clients clients' : Nat}
    (placed : w.Placed instances clients) (more : instances ≤ instances')
    (others : clients ≤ clients') : w.Placed instances' clients' := by
  cases w with
  | idle => trivial
  | applying r => exact Round.Placed.mono placed more others
  | appending r key a m => exact ⟨placed.1.mono more others, placed.2.trans_le more⟩
  | notifying r name text left =>
      exact ⟨placed.1.mono more others, fun j member => (placed.2 j member).trans_le others⟩
  | telling r name text j left =>
      exact ⟨placed.1.mono more others, placed.2.1.trans_le others,
        fun j member => (placed.2.2 j member).trans_le others⟩
  | delivering todo => exact fun due member => (placed due member).trans_le others
  | sending j result todo =>
      exact ⟨placed.1.trans_le others, fun due member => (placed.2 due member).trans_le others⟩
  | broadcasting left => exact fun j member => (placed j member).trans_le others
  | leaving j reason rest | parting j rest =>
      exact ⟨placed.1.trans_le others, placed.2.mono others⟩

theorem placed_afterError {r : Round} {key : String} {err : ShapeError} {instances clients : Nat}
    (placed : r.Placed instances clients) :
    (State.afterError r key err).Placed instances clients := by
  unfold State.afterError
  split
  · exact ⟨placed, placed.listed⟩
  · exact placed

theorem placed_run (placed : s.work.Placed s.heap.length s.clients.length)
    (stepped : RunStep s t) : t.work.Placed s.heap.length s.clients.length := by
  cases stepped with
  | applied work _ =>
      rw [work] at placed
      intro due member
      obtain ⟨j, listed, paired⟩ := List.mem_flatMap.1 member
      obtain ⟨result, -, rfl⟩ := List.mem_map.1 paired
      exact placed.listed j listed
  | @silent r key a streams inst w work next _ _ outcome =>
      rw [work] at placed
      have later : Round.Placed { r with streams := streams } s.heap.length s.clients.length :=
        ⟨fun entry member => placed.streams entry (next ▸ List.mem_cons_of_mem _ member),
          placed.listed⟩
      rcases outcome with rfl | ⟨err, rfl⟩
      · exact later
      · exact placed_afterError later
  | @cached r key a streams inst m work next found _ =>
      rw [work] at placed
      exact ⟨⟨fun entry member => placed.streams entry (next ▸ List.mem_cons_of_mem _ member),
        placed.listed⟩, (List.getElem?_eq_some_iff.1 found).1⟩
  | appended work _ _ =>
      rw [work] at placed
      exact ⟨placed.1.streams, placed.1.listed⟩
  | unappended work =>
      rw [work] at placed
      exact placed_afterError placed.1
  | notified work =>
      rw [work] at placed
      exact placed.1
  | @notify r name text j left w work outcome =>
      rw [work] at placed
      have later : ∀ k ∈ left, k < s.clients.length := fun k member =>
        placed.2 k (List.mem_cons_of_mem _ member)
      rcases outcome with rfl | rfl
      · exact ⟨placed.1, placed.2 j List.mem_cons_self, later⟩
      · exact ⟨placed.1, later⟩
  | tell work _ =>
      rw [work] at placed
      exact ⟨placed.1, placed.2.2⟩
  | finish _ => trivial
  | @deliver j result todo w work outcome =>
      rw [work] at placed
      have later : ∀ due ∈ todo, due.1 < s.clients.length := fun due member =>
        placed due (List.mem_cons_of_mem _ member)
      rcases outcome with rfl | rfl
      · exact ⟨placed (j, result) List.mem_cons_self, later⟩
      · exact later
  | delivered work _ =>
      rw [work] at placed
      exact placed.2
  | sent work _ _ _ | slow work _ | bye work _ =>
      rw [work] at placed
      exact placed
  | clear _ => trivial
  | broadcast work _ =>
      rw [work] at placed
      exact fun j member => placed j (List.mem_cons_of_mem _ member)
  | @unwarned j left _ _ work _ =>
      rw [work] at placed
      exact ⟨placed j List.mem_cons_self, fun k member => placed k (List.mem_cons_of_mem _ member)⟩
  | parted work =>
      rw [work] at placed
      exact placed.2.work _

theorem Background.length_clients (quiet : Background s t) :
    t.clients.length = s.clients.length := by
  have lengths := congrArg List.length quiet.controls
  rwa [List.length_map, List.length_map] at lengths

theorem mem_listed {j : Nat} (listed : j ∈ s.listed) : j < s.clients.length :=
  List.mem_range.1 (List.mem_of_mem_filter listed)

theorem placed_step {e : Ev C} (placed : Placed s) (stepped : step u s e = some t) :
    Placed t := by
  refine ⟨allStreams_step placed.streams (fun _ _ _ _ => trivial)
    (fun _ _ _ _ _ _ _ _ _ => trivial) stepped, ?_⟩
  cases step_spec stepped with
  | connect conn _ =>
      exact placed.work.mono (Nat.le_refl _) (by simp [List.length_append])
  | client _ _ _ =>
      exact placed.work.mono (Nat.le_refl _) (by simp [State.setClient])
  | store _ _ _ =>
      exact placed.work.mono (by simp [State.store]) (by simp [State.store, State.setClient])
  | background quiet aside =>
      have same := quiet.length_clients
      cases aside with
      | buffer clients => exact placed.work.mono (Nat.le_refl _) same.ge
      | @copy ch order listed _ _ _ _ perm =>
          refine ⟨fun entry member => ?_, fun j member => mem_listed (perm.mem_iff.1 member)⟩
          obtain ⟨key, -, found⟩ := List.mem_filterMap.1 member
          obtain ⟨a, held, rfl⟩ := Option.map_eq_some_iff.1 found
          obtain ⟨inst, here, -⟩ := placed.streams key a held
          exact (List.getElem?_eq_some_iff.1 here).1
      | @recover listed event _ =>
          subst event
          simp only [step] at stepped
          split at stepped
          · split at stepped
            · next perm => exact fun j member => mem_listed (perm.mem_iff.1 member)
            · cases stepped
          · cases stepped
      | @sweep j clients event _ =>
          subst event
          obtain ⟨c, found, -⟩ := Option.bind_eq_some_iff.1 stepped
          exact ⟨(List.getElem?_eq_some_iff.1 found).1.trans_le same.ge, trivial⟩
      | run _ ran =>
          exact (placed_run placed.work ran).mono quiet.heap.length_le same.ge

theorem placed_of_reachable (reached : (machine u).Reachable s) : Placed s := by
  refine Machine.reachable_induction ?_ (fun _ _ _ => placed_step) reached
  rintro _ rfl
  refine ⟨fun key a held => ?_, trivial⟩
  cases held

/-- `Run` waits for the end of a shutdown, in the `SendBye` of client `j`. -/
def Waits (s : State C) (j : Nat) : Prop :=
  (∃ rest, s.work = .parting j rest) ∧ ∃ c, s.clients[j]? = some c ∧ c.session.conn.closing = true

/-- The goroutine of `Run` waits nowhere but in a `SendBye`. -/
theorem runStep_isSome (placed : Placed s) (busy : s.work ≠ .idle) :
    (s.runStep u).isSome ∨ ∃ j, Waits s j := by
  have atWork := placed.work
  have client : ∀ {j : Nat}, j < s.clients.length → ∃ c, s.clients[j]? = some c := fun inside =>
    ⟨_, List.getElem?_eq_getElem inside⟩
  cases work : s.work with
  | idle => exact absurd work busy
  | applying r =>
      left
      cases streams : r.streams with
      | nil => simp [State.runStep, work, streams]
      | cons entry later =>
          rw [work] at atWork
          have inside := atWork.streams entry (streams ▸ List.mem_cons_self)
          simp only [State.runStep, work, streams, List.getElem?_eq_getElem inside,
            Option.bind_eq_bind, Option.bind_some]
          split <;> rfl
  | appending r key a m =>
      left
      rw [work] at atWork
      simp only [State.runStep, work, List.getElem?_eq_getElem atWork.2, Option.bind_eq_bind,
        Option.bind_some]
      split <;> rfl
  | notifying r name text left =>
      left
      cases left with
      | nil => simp [State.runStep, work]
      | cons j left =>
          rw [work] at atWork
          obtain ⟨c, found⟩ := client (atWork.2 j List.mem_cons_self)
          simp [State.runStep, work, found]
  | telling r name text j left =>
      left
      rw [work] at atWork
      obtain ⟨c, found⟩ := client atWork.2.1
      simp [State.runStep, work, found]
  | delivering todo =>
      left
      cases todo with
      | nil => simp [State.runStep, work]
      | cons due todo =>
          rw [work] at atWork
          obtain ⟨c, found⟩ := client (atWork due List.mem_cons_self)
          simp [State.runStep, work, found]
  | sending j result todo =>
      left
      rw [work] at atWork
      obtain ⟨c, found⟩ := client atWork.1
      cases events : result.events with
      | nil => simp [State.runStep, work, events]
      | cons ev later =>
          simp only [State.runStep, work, events, found, Option.bind_eq_bind, Option.bind_some]
          split <;> rfl
  | broadcasting left =>
      left
      cases left with
      | nil => simp [State.runStep, work]
      | cons j left =>
          rw [work] at atWork
          obtain ⟨c, found⟩ := client (atWork j List.mem_cons_self)
          simp only [State.runStep, work, found, Option.bind_eq_bind, Option.bind_some]
          split <;> rfl
  | leaving j reason rest =>
      left
      rw [work] at atWork
      obtain ⟨c, found⟩ := client atWork.1
      simp [State.runStep, work, found]
  | parting j rest =>
      rw [work] at atWork
      obtain ⟨c, found⟩ := client atWork.1
      cases closing : c.session.conn.closing with
      | false => exact .inl (by simp [State.runStep, work, found, closing])
      | true => exact .inr ⟨j, ⟨rest, work⟩, c, found, closing⟩

/-- The wait ends with the shutdown. -/
theorem waits_shut {j : Nat} (waits : Waits s j) :
    ∃ t, step u s (.shut j) = some t ∧ t.work = s.work ∧ (step u t .run).isSome := by
  obtain ⟨⟨rest, work⟩, c, found, closing⟩ := waits
  have inside := (List.getElem?_eq_some_iff.1 found).1
  refine ⟨s.setClient j (c.withConn { c.session.conn with gone := true }), ?_, rfl, ?_⟩
  · simp [step, found, Conn.shut, closing]
  · simp [step, State.runStep, State.setClient, work, inside, Client.withConn, Conn.closing]

/-! ### How many steps are left -/

/-- For each session and result: look at the session, send each event, or give the client up
in two steps, and go on. -/
def todoCost : List (Nat × Applied) → Nat
  | [] => 1
  | due :: todo => due.2.events.length + 4 + todoCost todo

/-- The same for one session and all results of a round. -/
def resultsCost : List Applied → Nat
  | [] => 0
  | result :: results => result.events.length + 4 + resultsCost results

/-- A stream costs two steps of `Apply`, and then either a notice to each session or a
result that is sent to each of them. -/
def Round.streamCost (r : Round) : Nat := 5 * r.listed.length + 3

def Round.cost (r : Round) : Nat :=
  r.streams.length * r.streamCost + r.listed.length * resultsCost r.results + 2

def Rest.cost : Rest → Nat
  | .idle => 0
  | .delivering todo => todoCost todo
  | .broadcasting left => 3 * left.length + 1

/-- A bound on the steps that are left to the goroutine of `Run`. -/
def Work.cost : Work → Nat
  | .idle => 0
  | .applying r => r.cost
  | .appending r _ _ _ => r.cost + 5 * r.listed.length + 2
  | .notifying r _ _ left => r.cost + 2 * left.length + 1
  | .telling r _ _ _ left => r.cost + 2 * left.length + 2
  | .delivering todo => todoCost todo
  | .sending _ result todo => todoCost todo + result.events.length + 3
  | .broadcasting left => 3 * left.length + 1
  | .leaving _ _ rest => rest.cost + 2
  | .parting _ rest => rest.cost + 1

theorem Rest.cost_work (rest : Rest) : rest.work.cost = rest.cost := by
  cases rest <;> rfl

theorem todoCost_results (j : Nat) (results : List Applied) (todo : List (Nat × Applied)) :
    todoCost (results.map (fun result => (j, result)) ++ todo) =
      resultsCost results + todoCost todo := by
  induction results with
  | nil => simp [resultsCost]
  | cons result results ih =>
      simp only [List.map_cons, List.cons_append, todoCost, resultsCost, ih]
      omega

theorem todoCost_round (listed : List Nat) (results : List Applied) :
    todoCost (listed.flatMap fun j => results.map fun result => (j, result)) =
      listed.length * resultsCost results + 1 := by
  induction listed with
  | nil => simp [todoCost]
  | cons j listed ih =>
      rw [List.flatMap_cons, todoCost_results, ih, List.length_cons, Nat.succ_mul]
      omega

theorem resultsCost_concat (results : List Applied) (result : Applied) :
    resultsCost (results ++ [result]) = resultsCost results + (result.events.length + 4) := by
  induction results with
  | nil => simp [resultsCost]
  | cons first results ih =>
      simp only [List.cons_append, resultsCost, ih]
      omega

theorem cost_afterError (r : Round) (key : String) (err : ShapeError) :
    (State.afterError r key err).cost ≤ r.cost + 2 * r.listed.length + 1 := by
  unfold State.afterError
  split
  · exact Nat.le_refl _
  · exact Nat.le_add_right_of_le (Nat.le_add_right _ _)

theorem Round.cost_next {r : Round} {entry : String × Nat} {streams : List (String × Nat)}
    (next : r.streams = entry :: streams) :
    r.cost = { r with streams := streams }.cost + 5 * r.listed.length + 3 := by
  simp only [Round.cost, Round.streamCost, next, List.length_cons, Nat.succ_mul]
  omega

theorem Round.cost_result (r : Round) (result : Applied) (ev : Event)
    (one : result.events = [ev]) :
    { r with results := r.results ++ [result] }.cost = r.cost + 5 * r.listed.length := by
  simp only [Round.cost, Round.streamCost, resultsCost_concat, one, List.length_singleton,
    Nat.mul_add]
  omega

/-- Every step of the goroutine of `Run` brings it nearer to its end. -/
theorem cost_run (stepped : RunStep s t) : t.work.cost < s.work.cost := by
  cases stepped with
  | @applied r work streams =>
      rw [work]
      simp only [Work.cost, todoCost_round, Round.cost, streams, List.length_nil]
      omega
  | @silent r key a streams inst w work next _ _ outcome =>
      have before := Round.cost_next next
      rw [work]
      rcases outcome with rfl | ⟨err, rfl⟩
      · simp only [Work.cost]
        omega
      · have bound := cost_afterError { r with streams := streams } key err
        simp only [Work.cost] at bound ⊢
        omega
  | cached work next _ _ =>
      have before := Round.cost_next next
      rw [work]
      simp only [Work.cost]
      omega
  | @appended r key a m inst ev log work _ _ =>
      have grown := r.cost_result ⟨key, shapeNameOf key, [ev]⟩ ev rfl
      rw [work]
      simp only [Work.cost]
      omega
  | @unappended r key a m err work =>
      have bound := cost_afterError r key err
      rw [work]
      simp only [Work.cost] at bound ⊢
      omega
  | notified work | tell work _ | sent work next _ _ | finish work | clear work =>
      rw [work]
      simp_all [Work.cost, State.clear, todoCost]
  | notify work outcome =>
      rw [work]
      rcases outcome with rfl | rfl <;> simp only [Work.cost, List.length_cons] <;> omega
  | deliver work outcome =>
      rw [work]
      rcases outcome with rfl | rfl <;>
        simp only [Work.cost, todoCost] <;> omega
  | delivered work _ | slow work _ =>
      rw [work]
      simp only [Work.cost, Rest.cost]
      omega
  | broadcast work _ | unwarned work _ =>
      rw [work]
      simp only [Work.cost, Rest.cost, List.length_cons]
      omega
  | bye work _ =>
      rw [work]
      exact Nat.lt_succ_self _
  | parted work =>
      rw [work]
      simp only [Rest.cost_work]
      exact Nat.lt_succ_self _

/-- The other goroutines leave that of `Run` where it is. -/
theorem work_step {e : Ev C} (goesOn : e.starts = false) (other : e.isRun = false)
    (stepped : step u s e = some t) : t.work = s.work := by
  cases step_spec stepped with
  | connect _ _ => rfl
  | client _ _ _ => rfl
  | store _ _ _ => rfl
  | background _ aside =>
      cases aside with
      | buffer _ => rfl
      | copy event _ _ _ _ => simp [event, Ev.starts] at goesOn
      | recover event _ | sweep _ event _ => simp [event, Ev.starts] at goesOn
      | run event _ => simp [event, Ev.isRun] at other

theorem cost_step {e : Ev C} (goesOn : e.starts = false) (stepped : step u s e = some t) :
    t.work.cost + [e].countP Ev.isRun ≤ s.work.cost := by
  cases other : e.isRun with
  | false =>
      rw [work_step goesOn other stepped]
      simp [other]
  | true =>
      cases e with
      | run =>
          have less := cost_run (runStep_spec stepped)
          simp only [List.countP_singleton, other, if_true]
          omega
      | _ => cases other

theorem cost_along {events : List (Ev C)} (ran : (machine u).run s events = some t)
    (goesOn : ∀ e ∈ events, e.starts = false) :
    t.work.cost + events.countP Ev.isRun ≤ s.work.cost := by
  induction events generalizing s with
  | nil =>
      cases ran
      exact Nat.le_refl _
  | cons e events ih =>
      obtain ⟨s₁, stepped, rest⟩ := Machine.run_cons.1 ran
      have here := cost_step (goesOn e List.mem_cons_self) stepped
      have later := ih rest fun e' member => goesOn e' (List.mem_cons_of_mem _ member)
      rw [List.countP_cons]
      simp only [List.countP_singleton] at here
      omega

/-- The steps that a dispatch, a broadcast or a sweep may take, by the copies it begins
with. -/
def Ev.budget : Ev C → Nat
  | .copy _ order listed => order.length * (5 * listed.length + 3) + 2
  | .recover listed => 3 * listed.length + 1
  | .sweep _ => 2
  | _ => 0

theorem cost_budget {e : Ev C} (begins : e.starts = true) (stepped : step u s e = some t) :
    t.work.cost ≤ e.budget := by
  cases e with
  | copy ch order listed =>
      simp only [step] at stepped
      split at stepped
      · split at stepped
        · cases stepped
          have fewer : (s.copied order).length ≤ order.length := List.length_filterMap_le _ _
          simp only [Work.cost, Round.cost, Round.streamCost, resultsCost, Ev.budget,
            Nat.mul_zero, Nat.add_zero]
          exact Nat.add_le_add_right (Nat.mul_le_mul_right _ fewer) 2
        · cases stepped
      · cases stepped
  | recover listed =>
      simp only [step] at stepped
      split at stepped
      · split at stepped
        · cases stepped
          exact Nat.le_refl _
        · cases stepped
      · cases stepped
  | sweep j =>
      obtain ⟨c, -, moved⟩ := Option.bind_eq_some_iff.1 stepped
      split at moved
      · cases moved
        exact Nat.le_refl _
      · cases moved
  | _ => cases begins

/-- **Fan-out waits for a client only to part with it.**  Whatever the clients do, a
dispatch, a broadcast or a sweep takes at most as many steps as its copies allow.  As long
as it is not done its next step can be taken, unless it is in the `SendBye` of a client
whose connection is being shut down; and then it can be taken once the shutdown is over. -/
theorem dispatch_waits_parting {s₀ : State C} (reached : (machine u).Reachable s) {e : Ev C}
    (begins : e.starts = true) (begun : step u s e = some s₀) {events : List (Ev C)}
    (ran : (machine u).run s₀ events = some t) (goesOn : ∀ e ∈ events, e.starts = false) :
    events.countP Ev.isRun ≤ e.budget ∧
      (t.work = .idle ∨ (step u t .run).isSome ∨ ∃ j, Waits t j) ∧
      ∀ j, Waits t j → ∃ t', step u t (.shut j) = some t' ∧ t'.work = t.work ∧
        (step u t' .run).isSome := by
  refine ⟨?_, ?_, fun j => waits_shut⟩
  · have spent := cost_along ran goesOn
    have budget := cost_budget begins begun
    omega
  · by_cases idle : t.work = .idle
    · exact .inl idle
    · have placed := placed_of_reachable ((reached.step begun).run ran)
      exact .inr (runStep_isSome placed idle)

namespace Tasks

def insertion : Ev Unit := .copy (inserted 2 20) [streamKey "tasks" ""] [0]

/-- While the change is dispatched, another client comes. -/
def interleaved : List (Ev Unit) :=
  [.run, .connect (), .run, .run, .pump 0, .run, .subscribe 1 ["tasks"] none, .run, .session 1]

/-- Five of at most ten steps, and `Run` is not done: it can go on. -/
theorem dispatch_waits_parting_interleaved :
    ∃ s s₀ t, (machine setup).Reachable s ∧ step setup s insertion = some s₀ ∧
      (machine setup).run s₀ interleaved = some t ∧ interleaved.countP Ev.isRun = 5 ∧
      interleaved.countP Ev.isRun ≤ 10 ∧
      (t.work = .idle ∨ (step setup t .run).isSome ∨ ∃ j, Waits t j) := by
  have replay : ((machine setup).run {} (subscribed ++ [insertion] ++ interleaved)).isSome := by
    decide +kernel
  obtain ⟨t, ran⟩ := Option.isSome_iff_exists.1 replay
  rw [Machine.run_append, Machine.run_append] at ran
  obtain ⟨s₀, first, rest⟩ := Option.bind_eq_some_iff.1 ran
  obtain ⟨s, before, begins⟩ := Option.bind_eq_some_iff.1 first
  obtain ⟨_, begun, same⟩ := Machine.run_cons.1 begins
  cases same
  have reached : (machine setup).Reachable s := (Machine.Reachable.init rfl).run before
  obtain ⟨spent, goes, -⟩ :=
    dispatch_waits_parting (e := insertion) reached rfl begun rest (by decide)
  exact ⟨s, s₀, t, reached, begun, rest, rfl, spent, goes⟩

end Tasks

/-! ## What does not depend on a connection -/

section Isolation

variable {i : Nat}

/-- No step of a subscription of client `i`. -/
def Ev.Outside (i : Nat) : Ev C → Prop
  | .subscribe j _ _ | .session j | .take j _ _ | .takeFails j _ => j ≠ i
  | _ => True

/-- All but the steps of `Run`, and the pump and the shutdown of client `i`. -/
def Ev.visible (i : Nat) : Ev C → Bool
  | .run => false
  | .pump j | .shut j => j ≠ i
  | _ => true

/-- Notes about the buffers of others. -/
def Note.others (i : Nat) : Note C → Bool
  | .delivered j _ _ | .resnapshot j => j ≠ i
  | .served _ | .failed _ _ | .subscribed _ _ _ => true

/-- `Run` is at the events of client `i`, or parts with it. -/
def Work.At (i : Nat) : Work → Prop
  | .sending j _ _ | .leaving j _ _ | .parting j _ => j = i
  | _ => False

/-- Where `Run` is once it is done with client `i`. -/
def Work.past (i : Nat) : Work → Work
  | .sending j result todo => if j = i then .delivering todo else .sending j result todo
  | .leaving j reason rest => if j = i then rest.work else .leaving j reason rest
  | .parting j rest => if j = i then rest.work else .parting j rest
  | work => work

/-- The same clients, but for the connection of client `i`. -/
structure Alike (i : Nat) (l l' : List (Client C)) : Prop where
  length : l'.length = l.length
  others : ∀ j, j ≠ i → l'[j]? = l[j]?
  own : ∀ c, l[i]? = some c → ∃ conn, l'[i]? = some (c.withConn conn)

structure Apart (i : Nat) (s s' : State C) : Prop where
  present : i < s.clients.length
  heap : s'.heap = s.heap
  streams : s'.streams = s.streams
  clients : Alike i s.clients s'.clients
  work : s'.work.past i = s.work.past i
  trace : s'.trace.filter (Note.others i) = s.trace.filter (Note.others i)

namespace Alike

variable {l l' l'' : List (Client C)}

theorem refl (l : List (Client C)) : Alike i l l :=
  ⟨rfl, fun _ _ => rfl, fun c found => ⟨c.session.conn, found⟩⟩

theorem symm (alike : Alike i l l') : Alike i l' l := by
  refine ⟨alike.length.symm, fun j ne => (alike.others j ne).symm, fun c' found' => ?_⟩
  have inside := (List.getElem?_eq_some_iff.1 found').1
  rw [alike.length] at inside
  have found := List.getElem?_eq_getElem inside
  obtain ⟨conn, same⟩ := alike.own _ found
  cases found'.symm.trans same
  exact ⟨_, found⟩

theorem trans (alike : Alike i l l') (alike' : Alike i l' l'') : Alike i l l'' := by
  refine ⟨alike'.length.trans alike.length,
    fun j ne => (alike'.others j ne).trans (alike.others j ne), fun c found => ?_⟩
  obtain ⟨conn, found'⟩ := alike.own c found
  obtain ⟨conn', found''⟩ := alike'.own _ found'
  exact ⟨conn', found''⟩

/-- A client is there on both sides, and for `j ≠ i` it is the same. -/
theorem look (alike : Alike i l l') {j : Nat} {c : Client C} (found : l[j]? = some c) :
    ∃ conn, l'[j]? = some (c.withConn conn) ∧ (j ≠ i → conn = c.session.conn) := by
  by_cases same : j = i
  · subst same
    obtain ⟨conn, found'⟩ := alike.own c found
    exact ⟨conn, found', fun ne => absurd rfl ne⟩
  · exact ⟨c.session.conn, (alike.others j same).trans found, fun _ => rfl⟩

theorem set (alike : Alike i l l') {j : Nat} {c : Client C} {conn : Conn Sent}
    (other : j ≠ i → conn = c.session.conn) : Alike i (l.set j c) (l'.set j (c.withConn conn)) := by
  refine ⟨by simp [alike.length], fun k ne => ?_, fun c' found => ?_⟩
  · by_cases same : j = k
    · subst same
      rw [other ne]
      simp only [List.getElem?_set_self', alike.others j ne]
      rfl
    · rw [List.getElem?_set_ne same, List.getElem?_set_ne same, alike.others k ne]
  · by_cases same : j = i
    · subst same
      have inside := (List.getElem?_eq_some_iff.1 found).1
      rw [List.length_set] at inside
      rw [List.getElem?_set_self inside] at found
      cases found
      exact ⟨conn, List.getElem?_set_self (alike.length ▸ inside)⟩
    · rw [List.getElem?_set_ne same] at found ⊢
      exact alike.own c' found

theorem append (alike : Alike i l l') (c : Client C) : Alike i (l ++ [c]) (l' ++ [c]) := by
  refine ⟨by simp [alike.length], fun j ne => ?_, fun c' found => ?_⟩
  · rw [List.getElem?_append, List.getElem?_append, alike.length, alike.others j ne]
  · rw [List.getElem?_append] at found ⊢
    rw [alike.length]
    split at found
    · next inside =>
        rw [if_pos inside]
        exact alike.own c' found
    · next outside =>
        rw [if_neg outside]
        exact ⟨c'.session.conn, found⟩

theorem map (alike : Alike i l l') {f : Client C → Client C}
    (keeps : ∀ c conn, f (c.withConn conn) = (f c).withConn conn) :
    Alike i (l.map f) (l'.map f) := by
  refine ⟨by simp [alike.length], fun j ne => ?_, fun c' found => ?_⟩
  · rw [List.getElem?_map, List.getElem?_map, alike.others j ne]
  · rw [List.getElem?_map] at found
    obtain ⟨c, here, rfl⟩ := Option.map_eq_some_iff.1 found
    obtain ⟨conn, found'⟩ := alike.own c here
    exact ⟨conn, by rw [List.getElem?_map, found', Option.map_some, keeps]⟩

end Alike

theorem Alike.listed (alike : Alike i s.clients s'.clients) : s'.listed = s.listed := by
  unfold State.listed
  rw [alike.length]
  refine List.filter_congr fun j member => ?_
  have found := List.getElem?_eq_getElem (List.mem_range.1 member)
  obtain ⟨conn, found', -⟩ := alike.look found
  rw [found, found']
  rfl

theorem Rest.past_work (rest : Rest) : rest.work.past i = rest.work := by
  cases rest <;> rfl

theorem Work.past_of_away {w : Work} (away : ¬ w.At i) : w.past i = w := by
  cases w with
  | sending | leaving | parting => exact if_neg away
  | _ => rfl

theorem Apart.refl (present : i < s.clients.length) : Apart i s s :=
  ⟨present, rfl, rfl, .refl _, rfl, rfl⟩

theorem Apart.symm (apart : Apart i s s') : Apart i s' s :=
  ⟨apart.clients.length ▸ apart.present, apart.heap.symm, apart.streams.symm, apart.clients.symm,
    apart.work.symm, apart.trace.symm⟩

theorem Apart.trans {s'' : State C} (apart : Apart i s s') (apart' : Apart i s' s'') :
    Apart i s s'' :=
  ⟨apart.present, apart'.heap.trans apart.heap, apart'.streams.trans apart.streams,
    apart.clients.trans apart'.clients, apart'.work.trans apart.work,
    apart'.trace.trans apart.trace⟩

/-- What was noted about another client is the same on both sides. -/
theorem Apart.about (apart : Apart i s s') {j : Nat} (ne : j ≠ i) : s'.about j = s.about j := by
  have seen : ∀ n : Note C, (n.client = j ∧ n.others i = true) ↔ n.client = j := by
    refine fun n => and_iff_left_of_imp fun own => ?_
    cases n with
    | delivered | resnapshot =>
        cases own
        exact decide_eq_true ne
    | served | failed | subscribed => rfl
  have outer : ∀ trace : List (Note C),
      (trace.filter (Note.others i)).filter (fun n => n.client = j) =
        trace.filter fun n => n.client = j := by
    intro trace
    rw [List.filter_filter]
    refine List.filter_congr fun n _ => ?_
    rw [Bool.eq_iff_iff]
    simpa using seen n
  rw [State.about, State.about, ← outer, apart.trace, outer]

theorem Apart.request (apart : Apart i s s') {j : Nat} (ne : j ≠ i) (names : List String) :
    s'.request j names = s.request j names := by
  have halted : s'.halted = s.halted := by rw [State.halted, State.halted, apart.heap]
  have stale : s'.stale = s.stale := by rw [State.stale, State.stale, halted, apart.streams]
  rw [State.request, State.request, halted, stale, apart.about ne]

/-- Both sides put the same client back, but for its connection where it is `i`. -/
theorem Apart.setClient (apart : Apart i s s') {j : Nat} {c : Client C} (conn : Conn Sent)
    (other : j ≠ i → conn = c.session.conn) :
    Apart i (s.setClient j c) (s'.setClient j (c.withConn conn)) :=
  ⟨by simpa [State.setClient] using apart.present, apart.heap, apart.streams,
    apart.clients.set other, apart.work, apart.trace⟩

theorem Apart.noted (apart : Apart i s s') (notes : List (Note C)) :
    Apart i { s with trace := s.trace ++ notes } { s' with trace := s'.trace ++ notes } :=
  ⟨apart.present, apart.heap, apart.streams, apart.clients, apart.work,
    by simp only [List.filter_append, apart.trace]⟩

theorem Apart.works (apart : Apart i s s') (work : Work) :
    Apart i { s with work := work } { s' with work := work } :=
  ⟨apart.present, apart.heap, apart.streams, apart.clients, rfl, apart.trace⟩

/-- The same step of the goroutine of another client. -/
theorem Apart.acted (apart : Apart i s s') {j : Nat} (acted : Client C × List (Note C)) :
    Apart i (s.acted j acted) (s'.acted j acted) :=
  (apart.setClient acted.1.session.conn fun _ => rfl).noted acted.2

/-- What fills or empties the buffer of client `i`. -/
theorem apart_buffer {c : Client C} (found : s.clients[i]? = some c) (conn : Conn Sent)
    (work : Work) (same : work.past i = s.work.past i) (notes : List (Note C))
    (own : ∀ n ∈ notes, n.others i = false) :
    Apart i s { s.setClient i (c.withConn conn) with work := work, trace := s.trace ++ notes } := by
  have inside := (List.getElem?_eq_some_iff.1 found).1
  refine ⟨inside, rfl, rfl, ⟨by simp [State.setClient], fun j ne => ?_, fun c' here => ?_⟩, same,
    ?_⟩
  · exact List.getElem?_set_ne ne.symm
  · cases found.symm.trans here
    exact ⟨conn, List.getElem?_set_self inside⟩
  · have none : notes.filter (Note.others i) = [] := List.filter_eq_nil_iff.2 (by simpa using own)
    rw [List.filter_append, none, List.append_nil]

/-! ### The sessions and the pumps -/

/-- A step of the session of another client. -/
theorem apart_session {j : Nat} (apart : Apart i s s') (ne : j ≠ i)
    (stepped : s.sessionStep u j = some t) :
    ∃ t', s'.sessionStep u j = some t' ∧ Apart i t t' := by
  unfold State.sessionStep at stepped ⊢
  obtain ⟨c, found, moved⟩ := Option.bind_eq_some_iff.1 stepped
  rw [apart.clients.others j ne, found, Option.bind_eq_bind, Option.bind_some]
  have put : ∀ c' : Client C, Apart i (s.setClient j c') (s'.setClient j c') := fun c' =>
    apart.setClient c'.session.conn fun _ => rfl
  split at moved
  · next d inst lsn rows phase =>
      cases moved
      refine ⟨_, rfl, ?_⟩
      have back := put { c with phase := .stored d s.heap.length lsn rows }
      exact ⟨back.present, by simp [State.store, apart.heap], by
        simp [State.store, apart.heap, apart.streams], by
        simpa [State.store, apart.heap] using back.clients, apart.work, apart.trace⟩
  · rw [apart.heap, apart.streams]
    obtain ⟨acted, next, same⟩ := Option.bind_eq_some_iff.1 moved
    cases same
    rw [next]
    exact ⟨_, rfl, apart.acted acted⟩

/-- A step of anyone but `Run` is a step on both sides, or one that only client `i`
notices. -/
theorem apart_aside {e : Ev C} (apart : Apart i s s') (outside : e.Outside i)
    (other : e.isRun = false) (rests : s.work = .idle → s'.work = .idle)
    (stepped : step u s e = some t) :
    (e.visible i = false ∧ Apart i t s') ∨ ∃ t', step u s' e = some t' ∧ Apart i t t' := by
  cases e with
  | connect claims =>
      cases stepped
      refine .inr ⟨_, rfl, ⟨?_, apart.heap, apart.streams, apart.clients.append _, apart.work,
        apart.trace⟩⟩
      exact apart.present.trans_le (by simp)
  | hello j resume =>
      obtain ⟨c, found, moved⟩ := Option.bind_eq_some_iff.1 stepped
      obtain ⟨conn, found', same⟩ := apart.clients.look found
      split at moved
      · next idle =>
          cases moved
          refine .inr ⟨_, ?_, apart.setClient conn same⟩
          simp only [step, found', Client.withConn, idle, Option.bind_eq_bind, Option.bind_some]
      · cases moved
  | subscribe j names pool =>
      obtain ⟨c, found, moved⟩ := Option.bind_eq_some_iff.1 stepped
      have found' := (apart.clients.others j outside).trans found
      split at moved
      · next idle =>
          cases moved
          refine .inr ⟨_, ?_, apart.acted _⟩
          simp only [step, found', idle, Option.bind_eq_bind, Option.bind_some,
            apart.request outside]
      · next idle =>
          cases moved
          refine .inr ⟨_, ?_, apart.setClient _ fun _ => rfl⟩
          simp only [step, found', idle, Option.bind_eq_bind, Option.bind_some,
            apart.request outside]
          rfl
      · cases moved
  | session j => exact .inr (apart_session apart outside stepped)
  | take j lsn rows =>
      obtain ⟨c, found, moved⟩ := Option.bind_eq_some_iff.1 stepped
      have found' := (apart.clients.others j outside).trans found
      obtain ⟨acted, taken, same⟩ := Option.bind_eq_some_iff.1 moved
      cases same
      refine .inr ⟨_, ?_, apart.acted acted⟩
      simp only [step, found', taken, Option.bind_eq_bind, Option.bind_some]
  | takeFails j text =>
      obtain ⟨c, found, moved⟩ := Option.bind_eq_some_iff.1 stepped
      have found' := (apart.clients.others j outside).trans found
      split at moved
      · next bound =>
          cases moved
          refine .inr ⟨_, ?_, apart.acted _⟩
          simp only [step, found', bound, Option.bind_eq_bind, Option.bind_some]
      · cases moved
  | copy ch order listed =>
      simp only [step] at stepped
      split at stepped
      · next idle =>
          split at stepped
          · next orders =>
              cases stepped
              refine .inr ⟨_, ?_, apart.works _⟩
              rw [← apart.streams, ← apart.clients.listed] at orders
              simp only [step, rests idle]
              rw [if_pos orders, State.copied, State.copied, apart.streams]
          · cases stepped
      · cases stepped
  | recover listed =>
      simp only [step] at stepped
      split at stepped
      · next idle =>
          split at stepped
          · next orders =>
              cases stepped
              refine .inr ⟨_, ?_, apart.works _⟩
              rw [← apart.clients.listed] at orders
              simp only [step, rests idle, if_pos orders]
          · cases stepped
      · cases stepped
  | run => cases other
  | pump j =>
      obtain ⟨c, found, moved⟩ := Option.bind_eq_some_iff.1 stepped
      obtain ⟨conn, pumped, same⟩ := Option.bind_eq_some_iff.1 moved
      cases same
      by_cases own : j = i
      · subst own
        have buffer := apart_buffer found conn s.work rfl [] (by simp)
        rw [List.append_nil] at buffer
        exact .inl ⟨by simp [Ev.visible], buffer.symm.trans apart⟩
      · have found' := (apart.clients.others j own).trans found
        refine .inr ⟨_, ?_, apart.setClient _ fun _ => rfl⟩
        simp only [step, found', pumped, Option.bind_eq_bind, Option.bind_some]
        rfl
  | shut j =>
      obtain ⟨c, found, moved⟩ := Option.bind_eq_some_iff.1 stepped
      obtain ⟨conn, finished, same⟩ := Option.bind_eq_some_iff.1 moved
      cases same
      by_cases own : j = i
      · subst own
        have buffer := apart_buffer found conn s.work rfl [] (by simp)
        rw [List.append_nil] at buffer
        exact .inl ⟨by simp [Ev.visible], buffer.symm.trans apart⟩
      · have found' := (apart.clients.others j own).trans found
        refine .inr ⟨_, ?_, apart.setClient _ fun _ => rfl⟩
        simp only [step, found', finished, Option.bind_eq_bind, Option.bind_some]
        rfl
  | sweep j =>
      obtain ⟨c, found, moved⟩ := Option.bind_eq_some_iff.1 stepped
      obtain ⟨conn, found', same⟩ := apart.clients.look found
      split at moved
      · next idle listed =>
          cases moved
          refine .inr ⟨_, ?_, (apart.setClient (c := { c with listed := false }) conn same).works _⟩
          simp only [step, found', rests idle, Client.withConn, listed, Option.bind_eq_bind,
            Option.bind_some]
      · cases moved
  | leave j =>
      obtain ⟨c, found, moved⟩ := Option.bind_eq_some_iff.1 stepped
      obtain ⟨conn, found', same⟩ := apart.clients.look found
      split at moved
      · next idle =>
          cases moved
          refine .inr ⟨_, ?_, apart.setClient conn.close fun ne => ?_⟩
          · simp only [step, found', Client.withConn, idle, Option.bind_eq_bind, Option.bind_some]
          · rw [same ne]
            rfl
      · cases moved

/-! ### Fan-out -/

/-- A step of `Run` at client `i` is one that only client `i` notices. -/
theorem runStep_own (atClient : s.work.At i) (present : i < s.clients.length)
    (stepped : s.runStep u = some t) : Apart i s t := by
  obtain ⟨c, found⟩ : ∃ c, s.clients[i]? = some c := ⟨_, List.getElem?_eq_getElem present⟩
  have quiet : ∀ {work : Work}, work.past i = s.work.past i → Apart i s { s with work := work } :=
    fun same => ⟨present, rfl, rfl, .refl _, same, rfl⟩
  have buffer : ∀ {conn : Conn Sent} {work : Work}, work.past i = s.work.past i →
      Apart i s { s.setClient i (c.withConn conn) with work := work } := by
    intro conn work same
    have noted := apart_buffer found conn work same [] (by simp)
    rwa [List.append_nil] at noted
  cases work : s.work with
  | sending j result todo =>
      rw [work] at atClient
      cases (show j = i from atClient)
      simp only [State.runStep, work, found, Option.bind_eq_bind, Option.bind_some] at stepped
      split at stepped
      · cases stepped
        exact quiet (by simp [work, Work.past])
      · split at stepped
        · cases stepped
          refine apart_buffer found _ _ (by simp [work, Work.past]) _ fun n member => ?_
          split at member
          · cases List.mem_singleton.1 member
            simp [Note.others]
          · cases member
        · cases stepped
          exact buffer (by simp [work, Work.past, Rest.work])
  | leaving j reason rest =>
      rw [work] at atClient
      cases (show j = i from atClient)
      simp only [State.runStep, work, found, Option.bind_eq_bind, Option.bind_some] at stepped
      cases stepped
      exact buffer (by simp [work, Work.past])
  | parting j rest =>
      rw [work] at atClient
      cases (show j = i from atClient)
      simp only [State.runStep, work, found, Option.bind_eq_bind, Option.bind_some] at stepped
      split at stepped
      · cases stepped
      · cases stepped
        refine quiet (rest.past_work.trans ?_)
        rw [work, Work.past, if_pos rfl]
  | _ =>
      rw [work] at atClient
      cases atClient

/-- `Run` gets past client `i` by steps that only client `i` notices. -/
def Drains (u : Setup C) (i : Nat) (s : State C) : Prop :=
  ∃ events s'', (machine u).run s events = some s'' ∧ events.filter (Ev.visible i) = [] ∧
    s''.work = s.work.past i ∧ Apart i s s''

theorem Drains.before {s₁ : State C} {e : Ev C} (hidden : e.visible i = false)
    (stepped : step u s e = some s₁) (apart : Apart i s s₁) (drains : Drains u i s₁) :
    Drains u i s := by
  obtain ⟨events, s'', ran, unseen, past, apart'⟩ := drains
  refine ⟨e :: events, s'', Machine.run_cons.2 ⟨s₁, stepped, ran⟩, ?_, past.trans apart.work,
    apart.trans apart'⟩
  rw [List.filter_cons_of_neg (by simp [hidden]), unseen]

theorem drains_away (present : i < s.clients.length) (away : ¬ s.work.At i) : Drains u i s :=
  ⟨[], s, rfl, rfl, (Work.past_of_away away).symm, .refl present⟩

theorem drains_parting {rest : Rest} (present : i < s.clients.length)
    (work : s.work = .parting i rest) : Drains u i s := by
  have atClient : s.work.At i := by rw [work]; rfl
  have onward : ∀ {s₁ : State C}, i < s₁.clients.length → s₁.work = .parting i rest →
      (∃ c, s₁.clients[i]? = some c ∧ c.session.conn.closing = false) → Drains u i s₁ := by
    rintro s₁ present work ⟨c, found, finished⟩
    have stepped : step u s₁ .run = some { s₁ with work := rest.work } := by
      simp [step, State.runStep, work, found, finished]
    refine .before rfl stepped (runStep_own (by rw [work]; rfl) present stepped)
      (drains_away present ?_)
    cases rest <;> exact id
  obtain ⟨c, found⟩ : ∃ c, s.clients[i]? = some c := ⟨_, List.getElem?_eq_getElem present⟩
  cases closing : c.session.conn.closing with
  | false => exact onward present work ⟨c, found, closing⟩
  | true =>
      -- somebody else has to end the shutdown first
      have stepped : step u s (.shut i) =
          some (s.setClient i (c.withConn { c.session.conn with gone := true })) := by
        simp [step, found, Conn.shut, closing]
      have buffer := apart_buffer found { c.session.conn with gone := true } s.work rfl []
        (by simp)
      rw [List.append_nil] at buffer
      have after : (s.setClient i
          (c.withConn { c.session.conn with gone := true })).clients[i]? = _ :=
        List.getElem?_set_self present
      refine .before (by simp [Ev.visible]) stepped buffer (onward ?_ work ⟨_, after, ?_⟩)
      · simpa [State.setClient] using present
      · simp [Client.withConn, Conn.closing]

theorem drains_leaving {reason : String} {rest : Rest} (present : i < s.clients.length)
    (work : s.work = .leaving i reason rest) : Drains u i s := by
  obtain ⟨c, found⟩ : ∃ c, s.clients[i]? = some c := ⟨_, List.getElem?_eq_getElem present⟩
  have stepped : step u s .run = some { s.setClient i
      (c.withConn (c.session.conn.sendBye reason)) with work := .parting i rest } := by
    simp [step, State.runStep, work, found]
  refine .before rfl stepped (runStep_own (by rw [work]; rfl) present stepped)
    (drains_parting ?_ rfl)
  simpa [State.setClient] using present

/-- The events that are left for client `i` are sent, or it is given up. -/
theorem drains_sending {result : Applied} {todo : List (Nat × Applied)}
    (present : i < s.clients.length) (work : s.work = .sending i result todo) : Drains u i s := by
  have atClient : s.work.At i := by rw [work]; rfl
  obtain ⟨c, found⟩ : ∃ c, s.clients[i]? = some c := ⟨_, List.getElem?_eq_getElem present⟩
  induction left : result.events generalizing s c result with
  | nil =>
      have stepped : step u s .run = some { s with work := .delivering todo } := by
        simp [step, State.runStep, work, left]
      exact .before rfl stepped (runStep_own atClient present stepped) (drains_away present id)
  | cons ev later ih =>
      have inside : ∀ {conn : Conn Sent}, i < (s.setClient i (c.withConn conn)).clients.length := by
        intro conn
        simpa [State.setClient] using present
      rcases outcome : enqueueChange u.exotic c.session.conn result.source result.shapeName ev with
        ⟨conn, _ | _⟩
      · have stepped : step u s .run = some { s.setClient i (c.withConn conn) with
            work := .leaving i reasonSlowClient (.delivering todo) } := by
          simp [step, State.runStep, work, left, found, outcome]
        exact .before rfl stepped (runStep_own atClient present stepped)
          (drains_leaving inside rfl)
      · have stepped : step u s .run = some { s.setClient i (c.withConn conn) with
            work := .sending i { result with events := later } todo
            trace := s.trace ++ if ev.row.marshals u.exotic then
              [.delivered i result.source ev.offset] else [] } := by
          simp [step, State.runStep, work, left, found, outcome]
        exact .before rfl stepped (runStep_own atClient present stepped)
          (ih inside (show _ = Work.sending i { result with events := later } todo from rfl) rfl _
            (List.getElem?_set_self present) rfl)

theorem drains (present : i < s.clients.length) : Drains u i s := by
  cases work : s.work with
  | sending j result todo =>
      by_cases own : j = i
      · subst own
        exact drains_sending present work
      · exact drains_away present (by rw [work]; exact own)
  | leaving j reason rest =>
      by_cases own : j = i
      · subst own
        exact drains_leaving present work
      · exact drains_away present (by rw [work]; exact own)
  | parting j rest =>
      by_cases own : j = i
      · subst own
        exact drains_parting present work
      · exact drains_away present (by rw [work]; exact own)
  | _ => exact drains_away present (by rw [work]; exact id)

/-- The broadcast to client `i`, accepted or not. -/
theorem runStep_broadcast {left : List Nat} (present : i < s.clients.length)
    (work : s.work = .broadcasting (i :: left)) :
    ∃ t, s.runStep u = some t ∧ Apart i { s with work := .broadcasting left } t := by
  obtain ⟨c, found⟩ : ∃ c, s.clients[i]? = some c := ⟨_, List.getElem?_eq_getElem present⟩
  have buffer := fun conn work => apart_buffer (s := { s with work := .broadcasting left }) found
    conn work
  simp only [State.runStep, work, found, Option.bind_eq_bind, Option.bind_some]
  split
  · exact ⟨_, rfl, buffer _ _ rfl [.resnapshot i] (by simp [Note.others])⟩
  · next conn _ =>
      have refused := buffer conn (.leaving i reasonSlowClient (.broadcasting left))
        (by simp [Work.past, Rest.work]) [] (by simp)
      rw [List.append_nil] at refused
      exact ⟨_, rfl, refused⟩

/-- Where `Run` is at the same point on both sides, and not at the events of client `i`,
it takes the same step. -/
theorem apart_run (apart : Apart i s s') (same : s'.work = s.work) (away : ¬ s.work.At i)
    (stepped : s.runStep u = some t) : ∃ t', s'.runStep u = some t' ∧ Apart i t t' := by
  have applied : ∀ (heap : List (Instance C)) (work : Work),
      Apart i { s with heap := heap, work := work } { s' with heap := heap, work := work } :=
    fun heap work => ⟨apart.present, rfl, apart.streams, apart.clients, rfl, apart.trace⟩
  cases work : s.work with
  | idle => simp [State.runStep, work] at stepped
  | applying r =>
      rw [work] at same
      simp only [State.runStep, work] at stepped
      simp only [State.runStep, same, apart.heap]
      cases streams : r.streams with
      | nil =>
          simp only [streams, Option.some.injEq] at stepped ⊢
          subst stepped
          exact ⟨_, rfl, applied _ _⟩
      | cons entry later =>
          simp only [streams] at stepped ⊢
          obtain ⟨inst, found, moved⟩ := Option.bind_eq_some_iff.1 stepped
          simp only [found, Option.bind_eq_bind, Option.bind_some]
          split at moved <;> cases moved <;> exact ⟨_, rfl, applied _ _⟩
  | appending r key a m =>
      rw [work] at same
      simp only [State.runStep, work] at stepped
      simp only [State.runStep, same, apart.heap]
      obtain ⟨inst, found, moved⟩ := Option.bind_eq_some_iff.1 stepped
      simp only [found, Option.bind_eq_bind, Option.bind_some]
      split at moved <;> cases moved <;> exact ⟨_, rfl, applied _ _⟩
  | notifying r name text left =>
      rw [work] at same
      cases left with
      | nil =>
          simp only [State.runStep, work, Option.some.injEq] at stepped
          subst stepped
          exact ⟨_, by simp only [State.runStep, same], apart.works _⟩
      | cons j left =>
          simp only [State.runStep, work] at stepped
          obtain ⟨c, found, moved⟩ := Option.bind_eq_some_iff.1 stepped
          obtain ⟨conn, found', -⟩ := apart.clients.look found
          cases moved
          refine ⟨_, ?_, apart.works _⟩
          simp only [State.runStep, same, found', Option.bind_eq_bind, Option.bind_some,
            Client.withConn]
  | telling r name text j left =>
      rw [work] at same
      simp only [State.runStep, work] at stepped
      obtain ⟨c, found, moved⟩ := Option.bind_eq_some_iff.1 stepped
      obtain ⟨conn, found', other⟩ := apart.clients.look found
      cases moved
      refine ⟨_, ?_, (apart.setClient (sendErr conn codeHalted text name) fun ne => ?_).works _⟩
      · simp only [State.runStep, same, found', Option.bind_eq_bind, Option.bind_some]
        rfl
      · rw [other ne]
        rfl
  | delivering todo =>
      rw [work] at same
      cases todo with
      | nil =>
          simp only [State.runStep, work, Option.some.injEq] at stepped
          subst stepped
          exact ⟨_, by simp only [State.runStep, same], apart.works _⟩
      | cons due todo =>
          simp only [State.runStep, work] at stepped
          obtain ⟨c, found, moved⟩ := Option.bind_eq_some_iff.1 stepped
          obtain ⟨conn, found', -⟩ := apart.clients.look found
          cases moved
          refine ⟨_, ?_, apart.works _⟩
          simp only [State.runStep, same, found', Option.bind_eq_bind, Option.bind_some,
            Client.withConn]
  | sending j result todo =>
      rw [work] at same away
      have ne : j ≠ i := away
      simp only [State.runStep, work] at stepped
      simp only [State.runStep, same, apart.clients.others j ne]
      cases events : result.events with
      | nil =>
          simp only [events, Option.some.injEq] at stepped ⊢
          subst stepped
          exact ⟨_, rfl, apart.works _⟩
      | cons ev later =>
          simp only [events] at stepped ⊢
          obtain ⟨c, found, moved⟩ := Option.bind_eq_some_iff.1 stepped
          simp only [found, Option.bind_eq_bind, Option.bind_some]
          split at moved <;> cases moved
          · exact ⟨_, rfl, ((apart.setClient _ fun _ => rfl).noted _).works _⟩
          · exact ⟨_, rfl, (apart.setClient _ fun _ => rfl).works _⟩
  | broadcasting left =>
      rw [work] at same
      cases left with
      | nil =>
          simp only [State.runStep, work, Option.some.injEq] at stepped
          subst stepped
          refine ⟨s'.clear, by simp only [State.runStep, same], ?_⟩
          refine ⟨by simpa [State.clear] using apart.present, apart.heap, rfl, ?_, rfl, apart.trace⟩
          refine apart.clients.map fun c conn => ?_
          cases listed : c.listed <;> simp [Client.withConn, listed]
      | cons j left =>
          simp only [State.runStep, work] at stepped
          obtain ⟨c, found, moved⟩ := Option.bind_eq_some_iff.1 stepped
          by_cases own : j = i
          · subst own
            obtain ⟨t₁, stepped₁, told⟩ := runStep_broadcast apart.present work
            obtain ⟨t₂, stepped₂, told'⟩ :=
              runStep_broadcast (apart.clients.length ▸ apart.present) same
            have moved : s.runStep u = some t := by simpa only [State.runStep, work] using stepped
            cases moved.symm.trans stepped₁
            exact ⟨t₂, stepped₂, told.symm.trans ((apart.works _).trans told')⟩
          · simp only [State.runStep, same, apart.clients.others j own, found,
              Option.bind_eq_bind, Option.bind_some]
            split at moved <;> cases moved
            · exact ⟨_, rfl, ((apart.setClient _ fun _ => rfl).noted _).works _⟩
            · exact ⟨_, rfl, (apart.setClient _ fun _ => rfl).works _⟩
  | leaving j reason rest =>
      rw [work] at same away
      have ne : j ≠ i := away
      simp only [State.runStep, work] at stepped
      simp only [State.runStep, same, apart.clients.others j ne]
      obtain ⟨c, found, moved⟩ := Option.bind_eq_some_iff.1 stepped
      simp only [found, Option.bind_eq_bind, Option.bind_some]
      cases moved
      exact ⟨_, rfl, (apart.setClient _ fun _ => rfl).works _⟩
  | parting j rest =>
      rw [work] at same away
      have ne : j ≠ i := away
      simp only [State.runStep, work] at stepped
      simp only [State.runStep, same, apart.clients.others j ne]
      obtain ⟨c, found, moved⟩ := Option.bind_eq_some_iff.1 stepped
      simp only [found, Option.bind_eq_bind, Option.bind_some]
      split at moved
      · cases moved
      · next finished =>
          cases moved
          exact ⟨_, if_neg finished, apart.works _⟩

theorem follows_step {e : Ev C} (apart : Apart i s s') (outside : e.Outside i)
    (stepped : step u s e = some t) :
    ∃ events t', (machine u).run s' events = some t' ∧ Apart i t t' ∧
      events.filter (Ev.visible i) = [e].filter (Ev.visible i) := by
  by_cases own : e.isRun = true ∧ s.work.At i
  · -- only client `i` notices, so the other side need not move
    cases e with
    | run => exact ⟨[], s', rfl, (runStep_own own.2 apart.present stepped).symm.trans apart, rfl⟩
    | _ => cases own.1
  · -- the other side first gets past client `i`
    obtain ⟨events, s'', ran, unseen, past, apart'⟩ :=
      drains (u := u) (apart.clients.length ▸ apart.present)
    have related := apart.trans apart'
    have same : ¬ s.work.At i → s''.work = s.work := fun away =>
      past.trans (apart.work.trans (Work.past_of_away away))
    have after : ∀ {t' : State C}, step u s'' e = some t' → Apart i t t' →
        ∃ events t', (machine u).run s' events = some t' ∧ Apart i t t' ∧
          events.filter (Ev.visible i) = [e].filter (Ev.visible i) := by
      intro t' stepped' joined
      refine ⟨events ++ [e], t', Machine.run_trans ran (Machine.run_cons.2 ⟨t', stepped', rfl⟩),
        joined, ?_⟩
      rw [List.filter_append, unseen, List.nil_append]
    cases other : e.isRun with
    | true =>
        cases e with
        | run =>
            have away : ¬ s.work.At i := fun atClient => own ⟨rfl, atClient⟩
            obtain ⟨t', stepped', joined⟩ := apart_run related (same away) away stepped
            exact after stepped' joined
        | _ => cases other
    | false =>
        have rests : s.work = .idle → s''.work = .idle := fun idle =>
          (same (by rw [idle]; exact id)).trans idle
        rcases apart_aside related outside other rests stepped with
          ⟨hidden, joined⟩ | ⟨t', stepped', joined⟩
        · exact ⟨events, s'', ran, joined, by rw [unseen]; simp [hidden]⟩
        · exact after stepped' joined

/-- The state with another connection for client `i`. -/
def State.reconnect (s : State C) (i : Nat) (conn : Conn Sent) : State C :=
  { s with clients := s.clients.modify i fun c => c.withConn conn }

theorem apart_reconnect (present : i < s.clients.length) (conn : Conn Sent) :
    Apart i s (s.reconnect i conn) := by
  refine ⟨present, rfl, rfl, ⟨by simp [State.reconnect], fun j ne => ?_, fun c found => ?_⟩, rfl,
    rfl⟩
  · simp [State.reconnect, ne.symm]
  · exact ⟨conn, by simp [State.reconnect, found]⟩

/-- **What others are sent does not depend on a slow client.**  Give client `i` any other
connection, with a buffer of another size, full, empty or closed: as long as it does not
subscribe, every run of the engine has a run that differs from it in the steps of `Run` and
in the pump and the shutdown of `i` only, and that leaves the streams, all other clients with
all their messages, and all that was noted about them the same. -/
theorem slow_client_isolated (present : i < s.clients.length) (conn : Conn Sent)
    {events : List (Ev C)} (outside : ∀ e ∈ events, e.Outside i)
    (ran : (machine u).run s events = some t) :
    ∃ events' t', (machine u).run (s.reconnect i conn) events' = some t' ∧ Apart i t t' ∧
      events'.filter (Ev.visible i) = events.filter (Ev.visible i) := by
  refine Machine.run_follows (R := Apart i) ?_ (apart_reconnect present conn) outside ran
  intro s e t s' apart outside stepped
  exact follows_step apart outside stepped

end Isolation

namespace Tasks

/-- Two clients with one stream. -/
def both : List (Ev Unit) :=
  subscribed ++ [.connect (), .subscribe 1 ["tasks"] none] ++ List.replicate 7 (.session 1)

/-- A change for both of them; the second reads what it got. -/
def toBoth : List (Ev Unit) :=
  .copy (inserted 2 20) [streamKey "tasks" ""] [0, 1] :: List.replicate 10 .run ++ [.pump 1]

instance (i : Nat) : (e : Ev Unit) → Decidable (e.Outside i)
  | .subscribe j _ _ | .session j | .take j _ _ | .takeFails j _ =>
      inferInstanceAs (Decidable (j ≠ i))
  | .connect _ | .hello _ _ | .copy _ _ _ | .recover _ | .run | .pump _ | .shut _ | .sweep _
  | .leave _ => .isTrue trivial

/-- The first client is gone, and the second gets its two messages. -/
theorem slow_client_isolated_closed :
    ∃ s t, (machine setup).run {} both = some s ∧ (machine setup).run s toBoth = some t ∧
      (t.clients.map fun c => c.session.conn.accepted.length) = [2, 2] ∧
      ∃ events' t', (machine setup).run (s.reconnect 0 (Conn.new 1).close) events' = some t' ∧
        Apart 0 t t' ∧ events'.filter (Ev.visible 0) = toBoth.filter (Ev.visible 0) := by
  have replay : (((machine setup).run {} both).bind fun s => ((machine setup).run s toBoth).map
      fun t => (s.clients.length, t.clients.map fun c => c.session.conn.accepted.length)) =
        some (2, [2, 2]) := by
    decide +kernel
  obtain ⟨s, before, after⟩ := Option.bind_eq_some_iff.1 replay
  obtain ⟨t, ran, ends⟩ := Option.map_eq_some_iff.1 after
  obtain ⟨clients, accepted⟩ := Prod.mk.inj ends
  have present : 0 < s.clients.length := by omega
  exact ⟨s, t, before, ran, accepted,
    slow_client_isolated present (Conn.new 1).close (by decide) ran⟩

end Tasks

end Tether.Live
