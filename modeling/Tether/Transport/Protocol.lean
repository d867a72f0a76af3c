/-
# Tether.Transport.Protocol — the send buffer, one atomic step at a time

`Conn` of `transport/conn.go` is used by many goroutines at once.  `Enqueue` reads the
closed flag, locks, reads it again and sends; `shutdown`, which `sync.Once` runs once,
stores the flag outside the lock and closes the channel inside it; `WritePump` takes
messages out.  Here every one of these is a step of its own, and the machine takes the
steps of any number of calls in any order.

What keeps the channel safe is an ordering: a call that is about to send holds the lock
and found the flag unset under it, and the channel is closed only under the lock and
after the flag was set.  `Fits` says this of the place where a call stands, `turn_spec`
what one step does to the call that takes it, and `Frame` what it leaves to the others.

The steps refine the atomic connection of `Tether.Transport.Conn` (`refines_step`):
sending is its `enqueue`, closing the channel its `sendBye` or `close`, the end of the
`sync.Once` its `shut`, and all other steps leave it alone.
-/
import Mathlib.Logic.Relation
import Tether.Lib.Lists
import Tether.Lib.Machine
import Tether.Transport.Conn

namespace Tether.Transport.Protocol

open Tether.Lib

set_option autoImplicit false

/-! ## The steps -/

/-- Where a call of `Enqueue` stands. -/
inductive EnqueuePC where
  | load
  | lock
  | loadAgain
  | send
  /-- The deferred unlock, with the result. -/
  | unlock (accepted : Bool)
  | returned (accepted : Bool)
  deriving DecidableEq

/-- Where a call of `shutdown` stands. -/
inductive ShutdownPC where
  | once
  | store
  /-- The frames for the peer; they do not go through the buffer. -/
  | frames
  | lock
  | closeSend
  | unlock
  | done
  | returned
  deriving DecidableEq

/-- A call; `shutdown` has the reason of the bye frame, or none for `Close`. -/
inductive Thread (μ : Type) where
  | enqueue (msg : μ) (pc : EnqueuePC)
  | shutdown (bye : Option String) (pc : ShutdownPC)
  deriving DecidableEq

inductive Call (μ : Type) where
  | enqueue (msg : μ)
  | sendBye (reason : String)
  | close

def Call.thread {μ : Type} : Call μ → Thread μ
  | .enqueue msg => .enqueue msg .load
  | .sendBye reason => .shutdown (some reason) .once
  | .close => .shutdown none .once

/-- `sync.Once`; who runs it is noted for the proofs only. -/
inductive Once where
  | fresh
  | running (g : Nat)
  | done
  deriving DecidableEq

/-- What the calls share.  `lock` notes who holds the mutex, which `Unlock` does not
look at; `sent` notes whose message was put into the buffer, in order. -/
structure Shared (μ : Type) where
  capacity : Nat
  closed : Bool := false
  lock : Option Nat := none
  once : Once := .fresh
  queue : List μ := []
  sendClosed : Bool := false
  taken : List μ := []
  bye : Option String := none
  sent : List Nat := []

inductive Panic where
  | sendOnClosed
  | closeOfClosed
  | unlockOfUnlocked
  deriving DecidableEq

inductive Turn (μ : Type) where
  | blocked
  | panics (p : Panic)
  | moves (sh : Shared μ) (th : Thread μ)

variable {μ : Type}

/-- The next atomic step of call number `g`. -/
def Thread.turn (g : Nat) (sh : Shared μ) : Thread μ → Turn μ
  | .enqueue msg .load =>
      .moves sh (.enqueue msg (if sh.closed then .returned false else .lock))
  | .enqueue msg .lock =>
      if sh.lock.isSome then .blocked
      else .moves { sh with lock := some g } (.enqueue msg .loadAgain)
  | .enqueue msg .loadAgain =>
      .moves sh (.enqueue msg (if sh.closed then .unlock false else .send))
  | .enqueue msg .send =>
      -- a select with a default still panics on a closed channel
      if sh.sendClosed then .panics .sendOnClosed
      else if sh.queue.length < sh.capacity then
        .moves { sh with queue := sh.queue ++ [msg], sent := sh.sent ++ [g] }
          (.enqueue msg (.unlock true))
      else .moves sh (.enqueue msg (.unlock false))
  | .enqueue msg (.unlock accepted) =>
      if sh.lock.isSome then .moves { sh with lock := none } (.enqueue msg (.returned accepted))
      else .panics .unlockOfUnlocked
  | .enqueue _ (.returned _) => .blocked
  | .shutdown bye .once =>
      match sh.once with
      | .fresh => .moves { sh with once := .running g } (.shutdown bye .store)
      | .running _ => .blocked
      | .done => .moves sh (.shutdown bye .returned)
  | .shutdown bye .store => .moves { sh with closed := true } (.shutdown bye .frames)
  | .shutdown bye .frames => .moves { sh with bye := bye } (.shutdown bye .lock)
  | .shutdown bye .lock =>
      if sh.lock.isSome then .blocked
      else .moves { sh with lock := some g } (.shutdown bye .closeSend)
  | .shutdown bye .closeSend =>
      if sh.sendClosed then .panics .closeOfClosed
      else .moves { sh with sendClosed := true } (.shutdown bye .unlock)
  | .shutdown bye .unlock =>
      if sh.lock.isSome then .moves { sh with lock := none } (.shutdown bye .done)
      else .panics .unlockOfUnlocked
  | .shutdown bye .done => .moves { sh with once := .done } (.shutdown bye .returned)
  | .shutdown _ .returned => .blocked

structure State (μ : Type) where
  shared : Shared μ
  threads : List (Thread μ) := []
  panic : Option Panic := none

inductive Event (μ : Type) where
  /-- A goroutine starts a call. -/
  | call (c : Call μ)
  /-- Call number `g` takes its next step. -/
  | run (g : Nat)
  /-- `WritePump` receives a message. -/
  | pump

def State.step (s : State μ) : Event μ → Option (State μ)
  | .call c => if s.panic.isSome then none else some { s with threads := s.threads ++ [c.thread] }
  | .run g =>
      if s.panic.isSome then none
      else
        (s.threads[g]?).bind fun th =>
          match th.turn g s.shared with
          | .blocked => none
          | .panics p => some { s with panic := some p }
          | .moves sh th' => some { s with shared := sh, threads := s.threads.set g th' }
  | .pump =>
      if s.panic.isSome then none
      else
        match s.shared.queue with
        | [] => none
        | msg :: later =>
            some { s with
              shared := { s.shared with queue := later, taken := s.shared.taken ++ [msg] } }

/-- `NewConn`, and then everything that can happen to it. -/
def machine (μ : Type) : Machine (State μ) (Event μ) where
  init s := ∃ bufSize : Int,
    s = { shared := { capacity := if bufSize ≤ 0 then 64 else bufSize.toNat } }
  step := State.step

/-! ## One call -/

/-- What holds of the shared state while call `g` stands where it stands. -/
def Thread.Fits (sh : Shared μ) (g : Nat) : Thread μ → Prop
  | .enqueue _ .load | .enqueue _ .lock | .enqueue _ (.returned _) => True
  | .enqueue _ .loadAgain | .enqueue _ (.unlock _) => sh.lock = some g
  | .enqueue _ .send => sh.lock = some g ∧ sh.sendClosed = false
  | .shutdown _ .once | .shutdown _ .returned => True
  | .shutdown _ .store => sh.once = .running g ∧ sh.sendClosed = false
  | .shutdown _ .frames | .shutdown _ .lock =>
      sh.once = .running g ∧ sh.sendClosed = false ∧ sh.closed = true
  | .shutdown _ .closeSend =>
      sh.once = .running g ∧ sh.sendClosed = false ∧ sh.closed = true ∧ sh.lock = some g
  | .shutdown _ .unlock => sh.once = .running g ∧ sh.sendClosed = true ∧ sh.lock = some g
  | .shutdown _ .done => sh.once = .running g ∧ sh.sendClosed = true

/-- What holds of the shared state whoever stands where. -/
structure Shared.Good (sh : Shared μ) : Prop where
  bounded : sh.queue.length ≤ sh.capacity
  /-- The flag is set before the channel is closed. -/
  flagged : sh.sendClosed = true → sh.closed = true
  fresh : sh.once = .fresh → sh.sendClosed = false

/-- What a step of `g` can change under the other calls. -/
structure Frame (g : Nat) (sh sh' : Shared μ) : Prop where
  closed : sh.closed = true → sh'.closed = true
  lock : sh'.lock = sh.lock ∨ sh.lock = none ∨ sh.lock = some g
  once : sh'.once = sh.once ∨ sh.once = .fresh ∨ sh.once = .running g
  sendClosed : sh'.sendClosed = sh.sendClosed ∨ sh.lock = some g ∧ sh.once = .running g

theorem Frame.refl (g : Nat) (sh : Shared μ) : Frame g sh sh :=
  ⟨id, Or.inl rfl, Or.inl rfl, Or.inl rfl⟩

section Frame

variable {g g' : Nat} {sh sh' : Shared μ}

theorem Frame.lock_eq (frame : Frame g sh sh') (other : g' ≠ g) (held : sh.lock = some g') :
    sh'.lock = some g' := by
  rcases frame.lock with same | free | mine
  · rw [same, held]
  · rw [held] at free
    cases free
  · rw [held] at mine
    exact absurd (Option.some.inj mine) other

theorem Frame.once_eq (frame : Frame g sh sh') (other : g' ≠ g) (runs : sh.once = .running g') :
    sh'.once = .running g' := by
  rcases frame.once with same | fresh | mine
  · rw [same, runs]
  · rw [runs] at fresh
    cases fresh
  · rw [runs] at mine
    exact absurd (Once.running.inj mine) other

/-- The channel is closed by the call that holds the lock and runs the shutdown. -/
theorem Frame.sendClosed_eq (frame : Frame g sh sh') (other : g' ≠ g)
    (guarded : sh.lock = some g' ∨ sh.once = .running g') : sh'.sendClosed = sh.sendClosed := by
  rcases frame.sendClosed with same | ⟨lock, once⟩
  · exact same
  · rcases guarded with held | runs
    · rw [held] at lock
      exact absurd (Option.some.inj lock) other
    · rw [runs] at once
      exact absurd (Once.running.inj once) other

/-- **A step leaves the other calls where they stand.** -/
theorem Frame.fits (frame : Frame g sh sh') (other : g' ≠ g) {th : Thread μ}
    (fits : th.Fits sh g') : th.Fits sh' g' := by
  match th, fits with
  | .enqueue _ .load, _ | .enqueue _ .lock, _ | .enqueue _ (.returned _), _ => trivial
  | .enqueue _ .loadAgain, held | .enqueue _ (.unlock _), held => exact frame.lock_eq other held
  | .enqueue _ .send, ⟨held, opened⟩ =>
      exact ⟨frame.lock_eq other held, (frame.sendClosed_eq other (Or.inl held)).trans opened⟩
  | .shutdown _ .once, _ | .shutdown _ .returned, _ => trivial
  | .shutdown _ .store, ⟨runs, opened⟩ =>
      exact ⟨frame.once_eq other runs, (frame.sendClosed_eq other (Or.inr runs)).trans opened⟩
  | .shutdown _ .frames, ⟨runs, opened, flag⟩ | .shutdown _ .lock, ⟨runs, opened, flag⟩ =>
      exact ⟨frame.once_eq other runs, (frame.sendClosed_eq other (Or.inr runs)).trans opened,
        frame.closed flag⟩
  | .shutdown _ .closeSend, ⟨runs, opened, flag, held⟩ =>
      exact ⟨frame.once_eq other runs, (frame.sendClosed_eq other (Or.inr runs)).trans opened,
        frame.closed flag, frame.lock_eq other held⟩
  | .shutdown _ .unlock, ⟨runs, shut, held⟩ =>
      exact ⟨frame.once_eq other runs, (frame.sendClosed_eq other (Or.inr runs)).trans shut,
        frame.lock_eq other held⟩
  | .shutdown _ .done, ⟨runs, shut⟩ =>
      exact ⟨frame.once_eq other runs, (frame.sendClosed_eq other (Or.inr runs)).trans shut⟩

end Frame

/-- The message that the call has put into the buffer. -/
def Thread.accepted : Thread μ → Option μ
  | .enqueue msg (.unlock true) | .enqueue msg (.returned true) => some msg
  | _ => none

theorem Thread.accepted_eq_some {th : Thread μ} {msg : μ} :
    th.accepted = some msg ↔
      th = .enqueue msg (.unlock true) ∨ th = .enqueue msg (.returned true) := by
  constructor
  · intro accepted
    unfold Thread.accepted at accepted
    split at accepted
    · exact Or.inl (by rw [Option.some.inj accepted])
    · exact Or.inr (by rw [Option.some.inj accepted])
    · cases accepted
  · rintro (rfl | rfl) <;> rfl

/-- What a step of call `g` is, seen from the channel. -/
inductive Act (g : Nat) (sh sh' : Shared μ) (th th' : Thread μ) : Prop where
  | silent : sh'.queue = sh.queue → sh'.sent = sh.sent → sh'.sendClosed = sh.sendClosed →
      (sh.sendClosed = true → sh'.bye = sh.bye) → (sh'.once = .done ↔ sh.once = .done) →
      th'.accepted = th.accepted → Act g sh sh' th th'
  | accepts (msg : μ) : sh.sendClosed = false → sh.queue.length < sh.capacity →
      sh' = { sh with queue := sh.queue ++ [msg], sent := sh.sent ++ [g] } →
      th.accepted = none → th'.accepted = some msg → Act g sh sh' th th'
  | shuts : sh.sendClosed = false → sh' = { sh with sendClosed := true } →
      th'.accepted = th.accepted → Act g sh sh' th th'
  | ends : sh.sendClosed = true → sh.once ≠ .done → sh' = { sh with once := .done } →
      th'.accepted = th.accepted → Act g sh sh' th th'

/-- What is known after a step of call `g` from `sh` and `th`. -/
structure Moved (g : Nat) (sh sh' : Shared μ) (th th' : Thread μ) : Prop where
  capacity : sh'.capacity = sh.capacity
  taken : sh'.taken = sh.taken
  good : sh'.Good
  fits : th'.Fits sh' g
  frame : Frame g sh sh'
  act : Act g sh sh' th th'

theorem Moved.of_pc {g : Nat} {sh : Shared μ} {th th' : Thread μ} (good : sh.Good)
    (fits : th'.Fits sh g) (same : th'.accepted = th.accepted) : Moved g sh sh th th' :=
  ⟨rfl, rfl, good, fits, .refl g sh, .silent rfl rfl rfl (fun _ => rfl) Iff.rfl same⟩

/-- Taking the lock, or giving it back. -/
theorem Moved.of_lock {g : Nat} {sh : Shared μ} {th th' : Thread μ} (good : sh.Good)
    (mine : sh.lock = none ∨ sh.lock = some g) (lock : Option Nat)
    (fits : th'.Fits { sh with lock := lock } g) (same : th'.accepted = th.accepted) :
    Moved g sh { sh with lock := lock } th th' where
  capacity := rfl
  taken := rfl
  good := ⟨good.bounded, good.flagged, good.fresh⟩
  fits := fits
  frame := ⟨id, Or.inr mine, Or.inl rfl, Or.inl rfl⟩
  act := .silent rfl rfl rfl (fun _ => rfl) Iff.rfl same

/-- **One step of one call**: it is blocked, or it moves; it never panics. -/
theorem turn_spec {g : Nat} {sh : Shared μ} {th : Thread μ} (good : sh.Good)
    (fits : th.Fits sh g) :
    th.turn g sh = .blocked ∨
      ∃ sh' th', th.turn g sh = .moves sh' th' ∧ Moved g sh sh' th th' := by
  cases th with
  | enqueue msg pc =>
      cases pc with
      | load =>
          refine Or.inr ⟨sh, _, rfl, .of_pc good ?_ ?_⟩ <;> split <;> trivial
      | lock =>
          cases held : sh.lock with
          | some _ => exact Or.inl (if_pos (by rw [held]; rfl))
          | none =>
              refine Or.inr ⟨_, _, if_neg (by rw [held]; exact Bool.false_ne_true), ?_⟩
              exact .of_lock good (Or.inl held) _ rfl rfl
      | loadAgain =>
          have held : sh.lock = some g := fits
          refine Or.inr ⟨sh, _, rfl, ?_⟩
          by_cases flag : sh.closed = true
          · rw [if_pos flag]
            exact .of_pc good held rfl
          · rw [if_neg flag]
            -- the flag is unset under the lock, so the channel is open
            have opened : sh.sendClosed = false := by
              cases shut : sh.sendClosed with
              | false => rfl
              | true => exact absurd (good.flagged shut) flag
            exact .of_pc good ⟨held, opened⟩ rfl
      | send =>
          obtain ⟨held, opened⟩ := fits
          right
          by_cases room : sh.queue.length < sh.capacity
          · refine ⟨_, _, (if_neg (by rw [opened]; exact Bool.false_ne_true)).trans (if_pos room),
              rfl, rfl, ?_, held, ?_, .accepts msg opened room rfl rfl rfl⟩
            · exact ⟨by rw [List.length_append]; exact room, good.flagged, good.fresh⟩
            · exact ⟨id, Or.inl rfl, Or.inl rfl, Or.inl rfl⟩
          · refine ⟨_, _, (if_neg (by rw [opened]; exact Bool.false_ne_true)).trans (if_neg room),
              .of_pc good held rfl⟩
      | unlock accepted =>
          have held : sh.lock = some g := fits
          refine Or.inr ⟨_, _, if_pos (by rw [held]; rfl), ?_⟩
          exact .of_lock good (Or.inr held) _ trivial (by cases accepted <;> rfl)
      | returned accepted => exact Or.inl rfl
  | shutdown bye pc =>
      cases pc with
      | once =>
          cases once : sh.once with
          | fresh =>
              refine Or.inr ⟨{ sh with once := .running g }, .shutdown bye .store,
                by rw [Thread.turn, once], rfl, rfl, ?_, ⟨rfl, good.fresh once⟩, ?_,
                .silent rfl rfl rfl (fun _ => rfl) (by simp [once]) rfl⟩
              · exact ⟨good.bounded, good.flagged, fun off => absurd off Once.noConfusion⟩
              · exact ⟨id, Or.inl rfl, Or.inr (Or.inl once), Or.inl rfl⟩
          | running g' => exact Or.inl (by rw [Thread.turn, once])
          | done =>
              exact Or.inr ⟨sh, .shutdown bye .returned, by rw [Thread.turn, once],
                .of_pc good trivial rfl⟩
      | store =>
          obtain ⟨runs, opened⟩ := fits
          refine Or.inr ⟨_, _, rfl, rfl, rfl, ?_, ⟨runs, opened, rfl⟩, ?_,
            .silent rfl rfl rfl (fun _ => rfl) Iff.rfl rfl⟩
          · exact ⟨good.bounded, fun _ => rfl, good.fresh⟩
          · exact ⟨fun _ => rfl, Or.inl rfl, Or.inl rfl, Or.inl rfl⟩
      | frames =>
          obtain ⟨runs, opened, flag⟩ := fits
          refine Or.inr ⟨_, _, rfl, rfl, rfl, ?_, ⟨runs, opened, flag⟩, ?_,
            .silent rfl rfl rfl (fun shut => ?_) Iff.rfl rfl⟩
          · exact ⟨good.bounded, good.flagged, good.fresh⟩
          · exact ⟨id, Or.inl rfl, Or.inl rfl, Or.inl rfl⟩
          · rw [opened] at shut
            cases shut
      | lock =>
          obtain ⟨runs, opened, flag⟩ := fits
          cases held : sh.lock with
          | some _ => exact Or.inl (if_pos (by rw [held]; rfl))
          | none =>
              refine Or.inr ⟨_, _, if_neg (by rw [held]; exact Bool.false_ne_true), ?_⟩
              exact .of_lock good (Or.inl held) _ ⟨runs, opened, flag, rfl⟩ rfl
      | closeSend =>
          obtain ⟨runs, opened, flag, held⟩ := fits
          refine Or.inr ⟨_, _, if_neg (by rw [opened]; exact Bool.false_ne_true), rfl, rfl, ?_,
            ⟨runs, rfl, held⟩, ?_, .shuts opened rfl rfl⟩
          · refine ⟨good.bounded, fun _ => flag, fun fresh => ?_⟩
            have fresh : sh.once = .fresh := fresh
            rw [runs] at fresh
            cases fresh
          · exact ⟨id, Or.inl rfl, Or.inl rfl, Or.inr ⟨held, runs⟩⟩
      | unlock =>
          obtain ⟨runs, shut, held⟩ := fits
          refine Or.inr ⟨_, _, if_pos (by rw [held]; rfl), ?_⟩
          exact .of_lock good (Or.inr held) _ ⟨runs, shut⟩ rfl
      | done =>
          obtain ⟨runs, shut⟩ := fits
          refine Or.inr ⟨_, _, rfl, rfl, rfl, ?_, trivial, ?_,
            .ends shut (by simp [runs]) rfl rfl⟩
          · exact ⟨good.bounded, good.flagged, fun off => absurd off Once.noConfusion⟩
          · exact ⟨id, Or.inl rfl, Or.inr (Or.inr runs), Or.inl rfl⟩
      | returned => exact Or.inl rfl

/-! ## All calls together -/

/-- The message that call `g` has put into the buffer. -/
def State.message (s : State μ) (g : Nat) : Option μ := (s.threads[g]?).bind Thread.accepted

structure Safe (s : State μ) : Prop where
  alive : s.panic = none
  good : s.shared.Good
  fits : ∀ (g : Nat) (th : Thread μ), s.threads[g]? = some th → th.Fits s.shared g
  nodup : s.shared.sent.Nodup
  sent_iff : ∀ g, g ∈ s.shared.sent ↔ (s.message g).isSome = true
  /-- What was taken out and what is buffered is what was accepted, in order. -/
  delivered : s.shared.taken ++ s.shared.queue = s.shared.sent.filterMap s.message

/-- What the machine can do in a safe state. -/
inductive Stepped (s : State μ) : State μ → Prop where
  | call (c : Call μ) : Stepped s { s with threads := s.threads ++ [c.thread] }
  | run {g : Nat} {th th' : Thread μ} {sh : Shared μ} : s.threads[g]? = some th →
      th.turn g s.shared = .moves sh th' → Moved g s.shared sh th th' →
      Stepped s { s with shared := sh, threads := s.threads.set g th' }
  | pump {msg : μ} {later : List μ} : s.shared.queue = msg :: later →
      Stepped s { s with
        shared := { s.shared with queue := later, taken := s.shared.taken ++ [msg] } }

theorem stepped {s t : State μ} {e : Event μ} (safe : Safe s) (taken : s.step e = some t) :
    Stepped s t := by
  have alive : ¬ s.panic.isSome = true := by
    rw [safe.alive]
    exact Bool.false_ne_true
  cases e with
  | call c =>
      rw [State.step, if_neg alive] at taken
      cases taken
      exact .call c
  | run g =>
      rw [State.step, if_neg alive] at taken
      obtain ⟨th, here, moved⟩ := Option.bind_eq_some_iff.1 taken
      rcases turn_spec safe.good (safe.fits g th here) with blocked | ⟨sh, th', moves, spec⟩
      · rw [blocked] at moved
        cases moved
      · rw [moves] at moved
        cases moved
        exact .run here moves spec
  | pump =>
      rw [State.step, if_neg alive] at taken
      split at taken
      · cases taken
      · next msg later waiting =>
          cases taken
          exact .pump waiting

theorem message_set {s : State μ} {g : Nat} {th : Thread μ} (here : s.threads[g]? = some th)
    (sh : Shared μ) (th' : Thread μ) (g' : Nat) :
    State.message { s with shared := sh, threads := s.threads.set g th' } g' =
      if g' = g then th'.accepted else s.message g' := by
  have inside : g < s.threads.length := (List.getElem?_eq_some_iff.1 here).1
  by_cases same : g' = g
  · subst same
    simp [State.message, inside]
  · rw [State.message, List.getElem?_set_ne (Ne.symm same), if_neg same]
    rfl

theorem message_call (s : State μ) (c : Call μ) (g : Nat) :
    State.message { s with threads := s.threads ++ [c.thread] } g = s.message g := by
  have quiet : c.thread.accepted = none := by cases c <;> rfl
  rw [State.message, State.message]
  rcases Nat.lt_trichotomy g s.threads.length with old | new | beyond
  · rw [List.getElem?_append_left old]
  · subst new
    rw [List.getElem?_concat_length, Option.bind_some, quiet,
      List.getElem?_eq_none (Nat.le_refl _)]
    rfl
  · rw [List.getElem?_eq_none (by rw [List.length_append]; exact beyond),
      List.getElem?_eq_none (Nat.le_of_lt beyond)]

theorem safe_init {s : State μ} (initial : (machine μ).init s) : Safe s := by
  obtain ⟨bufSize, rfl⟩ := initial
  exact {
    alive := rfl
    good := ⟨Nat.zero_le _, fun off => absurd off Bool.false_ne_true, fun _ => rfl⟩
    fits := fun g th absent => by simp at absent
    nodup := List.nodup_nil
    sent_iff := fun g => by simp [State.message]
    delivered := rfl }

/-- The messages after a step that accepts nothing. -/
theorem Safe.of_same_messages {s t : State μ} (safe : Safe s) (alive : t.panic = s.panic)
    (good : t.shared.Good)
    (fits : ∀ (g : Nat) (th : Thread μ), t.threads[g]? = some th → th.Fits t.shared g)
    (sent : t.shared.sent = s.shared.sent) (messages : ∀ g, t.message g = s.message g)
    (kept : t.shared.taken ++ t.shared.queue = s.shared.taken ++ s.shared.queue) : Safe t where
  alive := alive.trans safe.alive
  good := good
  fits := fits
  nodup := sent ▸ safe.nodup
  sent_iff g := by rw [sent, messages, safe.sent_iff]
  delivered := by
    have same : t.message = s.message := funext messages
    rw [kept, sent, same, safe.delivered]

/-- The messages after a step that accepts one. -/
theorem Safe.of_accepted {s t : State μ} (safe : Safe s) (alive : t.panic = s.panic)
    (good : t.shared.Good)
    (fits : ∀ (g : Nat) (th : Thread μ), t.threads[g]? = some th → th.Fits t.shared g)
    {g : Nat} {msg : μ} (quiet : s.message g = none) (sent : t.shared.sent = s.shared.sent ++ [g])
    (messages : ∀ g', t.message g' = if g' = g then some msg else s.message g')
    (grown : t.shared.taken ++ t.shared.queue = s.shared.taken ++ s.shared.queue ++ [msg]) :
    Safe t := by
  have fresh : g ∉ s.shared.sent := by
    rw [safe.sent_iff, quiet]
    exact Bool.false_ne_true
  have earlier : s.shared.sent.filterMap t.message = s.shared.sent.filterMap s.message := by
    refine List.filterMap_congr fun g' member => ?_
    have other : g' ≠ g := fun mine => fresh (mine ▸ member)
    rw [messages, if_neg other]
  refine ⟨alive.trans safe.alive, good, fits, ?_, fun g' => ?_, ?_⟩
  · rw [sent]
    exact List.nodup_append.2 ⟨safe.nodup, List.nodup_singleton g, fun a old b new same =>
      fresh ((List.mem_singleton.1 new).symm.trans same.symm ▸ old)⟩
  · rw [sent, messages, List.mem_append, List.mem_singleton, safe.sent_iff]
    split_ifs with mine
    · simp [mine]
    · simp [mine]
  · rw [grown, sent, List.filterMap_append, earlier, ← safe.delivered]
    simp [messages]

/-- **One step keeps the invariant.** -/
theorem safe_step {s t : State μ} {e : Event μ} (safe : Safe s) (taken : s.step e = some t) :
    Safe t := by
  cases stepped safe taken with
  | call c =>
      refine safe.of_same_messages rfl safe.good (fun g th found => ?_) rfl (message_call s c) rfl
      rcases getElem?_concat_cases found with old | rfl
      · exact safe.fits g th old
      · cases c <;> trivial
  | @pump msg later waiting =>
      refine safe.of_same_messages rfl ?_ (fun g th found => ?_) rfl (fun _ => rfl) ?_
      · have bounded := safe.good.bounded
        rw [waiting] at bounded
        exact ⟨Nat.le_of_succ_le bounded, safe.good.flagged, safe.good.fresh⟩
      · -- no call looks at the buffer before it sends
        have frame : Frame (g + 1) s.shared
            { s.shared with queue := later, taken := s.shared.taken ++ [msg] } :=
          ⟨id, Or.inl rfl, Or.inl rfl, Or.inl rfl⟩
        exact frame.fits (Nat.ne_of_lt (Nat.lt_succ_self g)) (safe.fits g th found)
      · rw [waiting, List.append_assoc]
        rfl
  | @run g th th' sh here _ moved =>
      have fits : ∀ (g' : Nat) (x : Thread μ), (s.threads.set g th')[g']? = some x →
          x.Fits sh g' := by
        intro g' x found
        rcases getElem?_set_cases found with ⟨rfl, rfl⟩ | ⟨other, old⟩
        · exact moved.fits
        · exact moved.frame.fits other (safe.fits g' x old)
      have own : s.message g = th.accepted := by rw [State.message, here, Option.bind_some]
      have unchanged (same : th'.accepted = th.accepted) (g' : Nat) :
          State.message { s with shared := sh, threads := s.threads.set g th' } g' =
            s.message g' := by
        rw [message_set here]
        split_ifs with mine
        · rw [mine, own, same]
        · rfl
      cases moved.act with
      | silent queue sent _ _ _ same =>
          refine safe.of_same_messages rfl moved.good fits sent (unchanged same) ?_
          exact congr (congrArg _ moved.taken) queue
      | shuts _ after same | ends _ _ after same =>
          subst after
          exact safe.of_same_messages rfl moved.good fits rfl (unchanged same) rfl
      | accepts msg opened room grown before after =>
          subst grown
          refine safe.of_accepted rfl moved.good fits (own.trans before) rfl (fun g' => ?_)
            (List.append_assoc ..).symm
          rw [message_set here, after]

theorem safe_reachable {s : State μ} (reached : (machine μ).Reachable s) : Safe s :=
  Machine.reachable_induction (fun _ => safe_init) (fun _ _ _ => safe_step) reached

/-! ## Calls that start too late -/

/-- The flag is set, and call `n` has not got past its first look at it. -/
def Late (n : Nat) (msg : μ) (s : State μ) : Prop :=
  s.shared.closed = true ∧ ∃ pc ∈ [EnqueuePC.load, .returned false],
    s.threads[n]? = some (.enqueue msg pc)

theorem late_step {n : Nat} {msg : μ} {s t : State μ} {e : Event μ} (safe : Safe s)
    (late : Late n msg s) (taken : s.step e = some t) : Late n msg t := by
  obtain ⟨flag, pc, early, here⟩ := late
  cases stepped safe taken with
  | call c => exact ⟨flag, pc, early, getElem?_append_of_some here _⟩
  | pump _ => exact ⟨flag, pc, early, here⟩
  | @run g th th' sh own turn moved =>
      refine ⟨moved.frame.closed flag, ?_⟩
      by_cases mine : g = n
      · subst mine
        cases own.symm.trans here
        simp only [List.mem_cons, List.not_mem_nil, or_false] at early
        rcases early with rfl | rfl
        · rw [Thread.turn, if_pos flag] at turn
          cases turn
          refine ⟨.returned false, by simp, ?_⟩
          exact List.getElem?_set_self (List.getElem?_eq_some_iff.1 own).1
        · cases turn
      · exact ⟨pc, early, (List.getElem?_set_ne mine).trans here⟩

/-- **The connection's buffer under any interleaving.**  No step panics; the buffer
keeps its bound; what `WritePump` took out and what is buffered are the messages of the
calls that were accepted, each once and in that order; and a call of `Enqueue` that
starts when the flag is set does not return true. -/
theorem protocol_safe (s : State μ) (reached : (machine μ).Reachable s) :
    s.panic = none ∧ s.shared.queue.length ≤ s.shared.capacity ∧
      s.shared.taken ++ s.shared.queue = s.shared.sent.filterMap s.message ∧
      s.shared.sent.Nodup ∧
      (∀ g : Nat, g ∈ s.shared.sent ↔ ∃ msg,
        s.threads[g]? = some (.enqueue msg (.unlock true)) ∨
          s.threads[g]? = some (.enqueue msg (.returned true))) ∧
      ∀ msg es t, s.shared.closed = true →
        (machine μ).run s (.call (.enqueue msg) :: es) = some t →
        t.threads[s.threads.length]? ≠ some (.enqueue msg (.returned true)) := by
  have safe := safe_reachable reached
  refine ⟨safe.alive, safe.good.bounded, safe.delivered, safe.nodup, fun g => ?_, ?_⟩
  · rw [safe.sent_iff, State.message, Option.isSome_iff_exists]
    refine exists_congr fun msg => ?_
    cases s.threads[g]? with
    | none => simp
    | some th => simp [Thread.accepted_eq_some]
  · intro msg es t flag ran returned
    obtain ⟨u, first, rest⟩ := Machine.run_cons.1 ran
    have started : s.step (.call (.enqueue msg)) = some u := first
    have late : Late s.threads.length msg u := by
      have alive : ¬ s.panic.isSome = true := by
        rw [safe.alive]
        exact Bool.false_ne_true
      have entered : s.step (.call (.enqueue msg)) =
          some { s with threads := s.threads ++ [.enqueue msg .load] } := if_neg alive
      cases entered.symm.trans started
      exact ⟨flag, .load, by simp, List.getElem?_concat_length⟩
    obtain ⟨-, -, pc, early, here⟩ := Machine.run_induction
      (P := fun s => Safe s ∧ Late _ msg s)
      (fun _ _ _ both stepped => ⟨safe_step both.1 stepped, late_step both.1 both.2 stepped⟩)
      ⟨safe_step safe started, late⟩ rest
    rw [here] at returned
    cases returned
    simp at early

namespace Drained

def start : State Nat := { shared := { capacity := 1 } }

/-- Message 1 is accepted; call 1 has passed its first look at the flag when `Close`
stores it and gives up at its second one; call 3 starts after that. -/
def schedule : List (Event Nat) :=
  [.call (.enqueue 1), .run 0, .run 0, .run 0, .run 0, .run 0, .call (.enqueue 2), .run 1,
    .call .close, .run 2, .run 2, .run 1, .run 1, .pump, .call (.enqueue 3), .run 3, .run 1,
    .run 2, .run 2, .run 2, .run 2, .run 2]

def finish : State Nat where
  shared :=
    { capacity := 1, closed := true, once := .done, sendClosed := true, taken := [1], sent := [0] }
  threads :=
    [.enqueue 1 (.returned true), .enqueue 2 (.returned false), .shutdown none .returned,
      .enqueue 3 (.returned false)]

theorem protocol_safe_finish :
    finish.panic = none ∧
      finish.shared.taken ++ finish.shared.queue = finish.shared.sent.filterMap finish.message := by
  have ran : (machine Nat).run start schedule = some finish := rfl
  have reached : (machine Nat).Reachable finish := Machine.Reachable.run (.init ⟨1, rfl⟩) ran
  obtain ⟨alive, -, delivered, -⟩ := protocol_safe finish reached
  exact ⟨alive, delivered⟩

end Drained

/-! ## The atomic connection -/

/-- The connection as one object: it is closed when its channel is. -/
def State.conn (s : State μ) (bounded : s.shared.queue.length ≤ s.shared.capacity) : Conn μ where
  capacity := s.shared.capacity
  written := s.shared.taken
  queue := s.shared.queue
  closed := s.shared.sendClosed
  bye := if s.shared.sendClosed then s.shared.bye else none
  gone := decide (s.shared.once = .done)
  bounded := bounded

/-- One operation of the atomic connection, or none. -/
inductive Atomic (c c' : Conn μ) : Prop where
  | idle : c' = c → Atomic c c'
  | enqueue (msg : μ) : c.enqueue msg = (c', true) → Atomic c c'
  | sendBye (reason : String) : c.closed = false → c' = c.sendBye reason → Atomic c c'
  | close : c.closed = false → c' = c.close → Atomic c c'
  | shut : c.shut = some c' → Atomic c c'
  | pump : c.pump = some c' → Atomic c c'

/-- **A step of the protocol is an operation of the connection.** -/
theorem refines_step {s t : State μ} {e : Event μ} (safe : Safe s) (taken : s.step e = some t)
    (safe' : Safe t) : Atomic (s.conn safe.good.bounded) (t.conn safe'.good.bounded) := by
  cases stepped safe taken with
  | call c => exact .idle rfl
  | @pump msg later waiting =>
      refine .pump ?_
      unfold Conn.pump State.conn
      split
      · next empty => cases waiting.symm.trans empty
      · next m rest here =>
          cases waiting.symm.trans here
          rfl
  | @run g th th' sh here _ moved =>
      cases moved.act with
      | silent queue _ sendClosed bye once _ =>
          refine .idle ?_
          simp only [State.conn, moved.capacity, moved.taken, queue, sendClosed, once,
            Conn.mk.injEq, true_and, and_true]
          split_ifs with shut
          · exact bye shut
          · rfl
      | accepts msg opened room grown _ _ =>
          subst grown
          refine .enqueue msg ?_
          simp only [Conn.enqueue, State.conn, opened, Bool.false_eq_true, if_false]
          exact dif_pos room
      | shuts opened shut _ =>
          subst shut
          rcases Option.eq_none_or_eq_some s.shared.bye with bye | ⟨reason, bye⟩
          · refine .close opened ?_
            simp [State.conn, Conn.close, opened, bye]
          · refine .sendBye reason opened ?_
            simp [State.conn, Conn.sendBye, opened, bye]
      | ends shut running finished _ =>
          subst finished
          refine .shut ?_
          simp [State.conn, Conn.shut, Conn.closing, shut, running]

/-- Every state of the protocol is a state of the connection that `NewConn` returned,
after some operations. -/
theorem refines_conn {s : State μ} (reached : (machine μ).Reachable s) :
    ∃ bufSize, Relation.ReflTransGen Atomic (Conn.new bufSize)
      (s.conn (safe_reachable reached).good.bounded) := by
  induction reached with
  | init initial =>
      obtain ⟨bufSize, rfl⟩ := initial
      exact ⟨bufSize, .refl⟩
  | step before taken ih =>
      obtain ⟨bufSize, earlier⟩ := ih
      have safe := safe_reachable before
      exact ⟨bufSize, earlier.tail (refines_step safe taken (safe_step safe taken))⟩

end Tether.Transport.Protocol
