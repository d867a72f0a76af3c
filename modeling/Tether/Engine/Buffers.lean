/-
# Tether.Engine.Buffers — what a step leaves of a session

Whatever the goroutines do, the buffer of a client only grows, a closed connection stays
closed, a session that was taken out of `e.sessions` stays out, and its shapes change only
by `addShape` and `clearMembership`.  `Clients` is the list of clients that an event can
leave.
-/
import Tether.Engine.Live
import Tether.Lib.Lists

namespace Tether.Live

open Lib Wal Shape Transport

set_option autoImplicit false

variable {C : Type} {u : Setup C} {live live' : State C} {e : Ev C}

theorem extends_sendErr (conn : Conn Sent) (code message shapeName : String) :
    conn.Extends (sendErr conn code message shapeName) :=
  conn.extends_enqueue _

theorem extends_of_enqueue {conn conn' : Conn Sent} {m : Sent} {ok : Bool}
    (outcome : conn.enqueue m = (conn', ok)) : conn.Extends conn' := by
  have grown := conn.extends_enqueue m
  rwa [outcome] at grown

theorem extends_of_enqueueChange {exotic : Value → Option Json} {conn conn' : Conn Sent}
    {source shapeName : String} {ev : Event} {ok : Bool}
    (outcome : enqueueChange exotic conn source shapeName ev = (conn', ok)) :
    conn.Extends conn' := by
  unfold enqueueChange at outcome
  split at outcome
  · exact extends_of_enqueue outcome
  · cases outcome
    exact .refl conn

/-- What a step leaves of a session, `addShape` and `clearMembership` apart. -/
structure Client.Keeps (c c' : Client C) : Prop where
  conn : c.session.conn.Extends c'.session.conn
  listed : c'.listed = true → c.listed = true
  shapes : c'.session.shapes = c.session.shapes

theorem Client.Keeps.trans {a b c : Client C} (first : a.Keeps b) (second : b.Keeps c) :
    a.Keeps c :=
  ⟨first.conn.trans second.conn, fun listed => first.listed (second.listed listed),
    second.shapes.trans first.shapes⟩

section Client

variable {c c' : Client C}

theorem keeps_conn {conn : Conn Sent} (grown : c.session.conn.Extends conn) :
    c.Keeps (c.withConn conn) := ⟨grown, id, rfl⟩

theorem keeps_fail (c : Client C) (j : Nat) (text : String) : c.Keeps (c.fail j text).1 :=
  ⟨extends_sendErr _ _ _ _, id, rfl⟩

theorem keeps_bind (c : Client C) (j : Nat) (d : Definition C) : c.Keeps (c.bind j d).1 := by
  unfold Client.bind
  split
  · exact keeps_fail c j _
  · exact ⟨.refl _, id, rfl⟩

theorem keeps_sendSnapshot {d : Definition C} {a : Nat} {lsn : LSN} {offset : Int}
    {rows : Multiset Row} {origin : Origin} {notes : List (Note C)}
    {j : Nat} (sent : c.sendSnapshot u j d a lsn offset rows origin = (c', notes)) :
    c.Keeps c' := by
  unfold Client.sendSnapshot at sent
  split at sent
  · dsimp only at sent
    split at sent
    · next outcome =>
        cases sent
        exact ⟨extends_of_enqueue outcome, id, rfl⟩
    · next outcome =>
        cases sent
        exact ⟨extends_of_enqueue outcome, id, rfl⟩
  · have kept := keeps_fail c j (u.marshalError rows)
    rwa [sent] at kept

theorem keeps_sendReplay {d : Definition C} {a : Nat} {ev : Event} {events : List Event}
    {notes : List (Note C)} {j : Nat} (sent : c.sendReplay u j d a ev events = (c', notes)) :
    c.Keeps c' := by
  unfold Client.sendReplay at sent
  split at sent
  · next outcome =>
      cases sent
      exact ⟨extends_of_enqueueChange outcome, id, rfl⟩
  · next outcome =>
      cases sent
      exact ⟨extends_of_enqueueChange outcome, id, rfl⟩

theorem keeps_next {heap : List (Instance C)} {streams : KeyMap String Nat} {j : Nat}
    {notes : List (Note C)} (other : ∀ d a, c.phase ≠ .served d a)
    (next : c.next u heap streams j = some (c', notes)) : c.Keeps c' := by
  cases phase : c.phase with
  | idle | bound | loaded => simp [Client.next, phase] at next
  | served d a => exact absurd phase (other d a)
  | next =>
      simp only [Client.next, phase] at next
      split at next
      · cases next
        exact ⟨.refl _, id, rfl⟩
      · split at next
        · cases next
          exact ⟨extends_sendErr _ _ _ _, id, rfl⟩
        · cases next
          exact ⟨.refl _, id, rfl⟩
  | resume d resumeAt =>
      simp only [Client.next, phase] at next
      split at next
      · cases next
        exact ⟨.refl _, id, rfl⟩
      · have kept := keeps_bind c j d
        rwa [Option.some.inj next] at kept
  | found d resumeAt a =>
      simp only [Client.next, phase] at next
      obtain ⟨inst, -, moved⟩ := Option.bind_eq_some_iff.1 next
      split at moved
      · split at moved <;> cases moved <;> exact ⟨.refl _, id, rfl⟩
      · split at moved
        · cases moved
          exact ⟨.refl _, id, rfl⟩
        · have kept := keeps_bind c j d
          rwa [Option.some.inj moved] at kept
  | refused d =>
      simp only [Client.next, phase] at next
      have kept := (keeps_conn (extends_sendErr c.session.conn Subscribe.codeMustResnapshot
        "resume offset not available" d.name)).trans (keeps_bind _ j d)
      rwa [Option.some.inj next] at kept
  | replay d a events =>
      cases events with
      | nil =>
          simp only [Client.next, phase] at next
          cases next
          exact ⟨.refl _, id, rfl⟩
      | cons ev events =>
          simp only [Client.next, phase] at next
          exact keeps_sendReplay (Option.some.inj next)
  | offset d a offset =>
      simp only [Client.next, phase] at next
      obtain ⟨inst, -, moved⟩ := Option.bind_eq_some_iff.1 next
      cases moved
      exact ⟨.refl _, id, rfl⟩
  | rows d a offset rows =>
      simp only [Client.next, phase] at next
      exact keeps_sendSnapshot (Option.some.inj next)
  | stored d a lsn rows =>
      simp only [Client.next, phase] at next
      obtain ⟨inst, -, moved⟩ := Option.bind_eq_some_iff.1 next
      cases moved
      exact ⟨.refl _, id, rfl⟩
  | snapshot d a lsn rows offset =>
      simp only [Client.next, phase] at next
      exact keeps_sendSnapshot (Option.some.inj next)
  | slow =>
      simp only [Client.next, phase] at next
      cases next
      exact ⟨Conn.extends_sendBye _ _, id, rfl⟩
  | parting =>
      simp only [Client.next, phase] at next
      split at next
      · cases next
      · have kept := keeps_fail c j "tether: slow client"
        rwa [Option.some.inj next] at kept

theorem keeps_take {j : Nat} {lsn : LSN} {rows : List Row} {notes : List (Note C)}
    (taken : c.take j lsn rows = some (c', notes)) : c.Keeps c' := by
  unfold Client.take at taken
  split at taken
  · split at taken
    · next err _ =>
        have kept := keeps_fail c j err.text
        rwa [Option.some.inj taken] at kept
    · cases taken
      exact ⟨.refl _, id, rfl⟩
  · cases taken

end Client

/-- What event `e` does to the clients. -/
inductive Clients (live : State C) (e : Ev C) : List (Client C) → Prop where
  | same : Clients live e live.clients
  | connect (conn : Conn Sent) (claims : C) : conn.accepted = [] →
      Clients live e (live.clients ++ [{ session := ⟨conn, claims, ∅, ∅⟩ }])
  | keeps {j : Nat} {c c' : Client C} : live.clients[j]? = some c → c.Keeps c' →
      Clients live e (live.clients.set j c')
  | added {j : Nat} {c : Client C} {d : Definition C} {a : Nat} : e = .session j →
      live.clients[j]? = some c → c.phase = .served d a →
      Clients live e (live.clients.set j { c with
        session := { c.session with shapes := insert d.name c.session.shapes }, phase := .next })
  | cleared : e = .run → live.work = .broadcasting [] → Clients live e live.clear.clients

theorem clients_session {j : Nat} (stepped : live.sessionStep u j = some live') :
    Clients live (.session j) live'.clients := by
  obtain ⟨c, found, moved⟩ := Option.bind_eq_some_iff.1 stepped
  split at moved
  · cases moved
    exact .keeps found ⟨.refl _, id, rfl⟩
  · obtain ⟨⟨c', notes⟩, next, same⟩ := Option.bind_eq_some_iff.1 moved
    cases same
    by_cases served : ∃ d a, c.phase = .served d a
    · obtain ⟨d, a, phase⟩ := served
      simp only [Client.next, phase] at next
      cases next
      exact .added rfl found phase
    · push Not at served
      exact .keeps found (keeps_next served next)

theorem clients_run (stepped : live.runStep u = some live') : Clients live .run live'.clients := by
  cases work : live.work with
  | idle => simp [State.runStep, work] at stepped
  | applying r =>
      simp only [State.runStep, work] at stepped
      split at stepped
      · cases stepped
        exact .same
      · obtain ⟨inst, -, moved⟩ := Option.bind_eq_some_iff.1 stepped
        split at moved <;> cases moved <;> exact .same
  | appending r key a m =>
      simp only [State.runStep, work] at stepped
      obtain ⟨inst, -, moved⟩ := Option.bind_eq_some_iff.1 stepped
      split at moved <;> cases moved <;> exact .same
  | notifying r shapeName text left =>
      cases left with
      | nil =>
          simp only [State.runStep, work] at stepped
          cases stepped
          exact .same
      | cons j left =>
          simp only [State.runStep, work] at stepped
          obtain ⟨c, -, moved⟩ := Option.bind_eq_some_iff.1 stepped
          cases moved
          exact .same
  | telling r shapeName text j left =>
      simp only [State.runStep, work] at stepped
      obtain ⟨c, found, moved⟩ := Option.bind_eq_some_iff.1 stepped
      cases moved
      exact .keeps found (keeps_conn (extends_sendErr _ _ _ _))
  | delivering todo =>
      cases todo with
      | nil =>
          simp only [State.runStep, work] at stepped
          cases stepped
          exact .same
      | cons due todo =>
          simp only [State.runStep, work] at stepped
          obtain ⟨c, -, moved⟩ := Option.bind_eq_some_iff.1 stepped
          cases moved
          exact .same
  | sending j result todo =>
      simp only [State.runStep, work] at stepped
      split at stepped
      · cases stepped
        exact .same
      · obtain ⟨c, found, moved⟩ := Option.bind_eq_some_iff.1 stepped
        split at moved
        · next outcome =>
            cases moved
            exact .keeps found (keeps_conn (extends_of_enqueueChange outcome))
        · next outcome =>
            cases moved
            exact .keeps found (keeps_conn (extends_of_enqueueChange outcome))
  | broadcasting left =>
      cases left with
      | nil =>
          simp only [State.runStep, work] at stepped
          cases stepped
          exact .cleared rfl work
      | cons j left =>
          simp only [State.runStep, work] at stepped
          obtain ⟨c, found, moved⟩ := Option.bind_eq_some_iff.1 stepped
          split at moved
          · next outcome =>
              cases moved
              exact .keeps found (keeps_conn (extends_of_enqueue outcome))
          · next outcome =>
              cases moved
              exact .keeps found (keeps_conn (extends_of_enqueue outcome))
  | leaving j reason rest =>
      simp only [State.runStep, work] at stepped
      obtain ⟨c, found, moved⟩ := Option.bind_eq_some_iff.1 stepped
      cases moved
      exact .keeps found (keeps_conn (Conn.extends_sendBye _ _))
  | parting j rest =>
      simp only [State.runStep, work] at stepped
      obtain ⟨c, -, moved⟩ := Option.bind_eq_some_iff.1 stepped
      split at moved
      · cases moved
      · cases moved
        exact .same

theorem clients_step (stepped : step u live e = some live') :
    Clients live e live'.clients := by
  cases e with
  | connect claims =>
      cases stepped
      exact .connect _ _ rfl
  | hello j resume =>
      obtain ⟨c, found, moved⟩ := Option.bind_eq_some_iff.1 stepped
      split at moved
      · cases moved
        exact .keeps found ⟨.refl _, id, rfl⟩
      · cases moved
  | subscribe j names pool =>
      obtain ⟨c, found, moved⟩ := Option.bind_eq_some_iff.1 stepped
      split at moved
      · cases moved
        exact .keeps found ⟨extends_sendErr _ _ _ _, id, rfl⟩
      · cases moved
        exact .keeps found ⟨.refl _, id, rfl⟩
      · cases moved
  | session j => exact clients_session stepped
  | take j lsn rows =>
      obtain ⟨c, found, moved⟩ := Option.bind_eq_some_iff.1 stepped
      obtain ⟨⟨c', notes⟩, taken, same⟩ := Option.bind_eq_some_iff.1 moved
      cases same
      exact .keeps found (keeps_take taken)
  | takeFails j text =>
      obtain ⟨c, found, moved⟩ := Option.bind_eq_some_iff.1 stepped
      split at moved
      · cases moved
        exact .keeps found (keeps_fail c j _)
      · cases moved
  | copy ch order listed =>
      simp only [step] at stepped
      split at stepped
      · split at stepped
        · cases stepped
          exact .same
        · cases stepped
      · cases stepped
  | recover listed =>
      simp only [step] at stepped
      split at stepped
      · split at stepped
        · cases stepped
          exact .same
        · cases stepped
      · cases stepped
  | run => exact clients_run stepped
  | pump j =>
      obtain ⟨c, found, moved⟩ := Option.bind_eq_some_iff.1 stepped
      obtain ⟨conn, pumped, same⟩ := Option.bind_eq_some_iff.1 moved
      cases same
      exact .keeps found (keeps_conn (Conn.extends_pump pumped))
  | shut j =>
      obtain ⟨c, found, moved⟩ := Option.bind_eq_some_iff.1 stepped
      obtain ⟨conn, finished, same⟩ := Option.bind_eq_some_iff.1 moved
      cases same
      exact .keeps found (keeps_conn (Conn.extends_shut finished))
  | sweep j =>
      obtain ⟨c, found, moved⟩ := Option.bind_eq_some_iff.1 stepped
      split at moved
      · cases moved
        exact .keeps found ⟨.refl _, fun off => absurd off Bool.false_ne_true, rfl⟩
      · cases moved
  | leave j =>
      obtain ⟨c, found, moved⟩ := Option.bind_eq_some_iff.1 stepped
      split at moved
      · cases moved
        exact .keeps found ⟨Conn.extends_close _, fun off => absurd off Bool.false_ne_true, rfl⟩
      · cases moved

theorem found_clear {j : Nat} {c : Client C} (found : live.clients[j]? = some c) :
    ∃ c', live.clear.clients[j]? = some c' ∧ c'.session.conn = c.session.conn := by
  simp only [State.clear, List.getElem?_map, found, Option.map_some, Option.some.injEq,
    exists_eq_left']
  split <;> rfl

/-- Every client is still there, with what its buffer has accepted. -/
theorem Clients.extends {clients : List (Client C)} (step : Clients live e clients) {j : Nat}
    {c : Client C} (found : live.clients[j]? = some c) :
    ∃ c', clients[j]? = some c' ∧ c.session.conn.Extends c'.session.conn := by
  have replaced : ∀ {i : Nat} {old new : Client C}, live.clients[i]? = some old →
      old.session.conn.Extends new.session.conn →
      ∃ c', (live.clients.set i new)[j]? = some c' ∧ c.session.conn.Extends c'.session.conn := by
    intro i old new here grown
    by_cases same : i = j
    · subst same
      cases found.symm.trans here
      exact ⟨new, by simp [(List.getElem?_eq_some_iff.1 here).1], grown⟩
    · exact ⟨c, by rw [List.getElem?_set_ne same, found], .refl _⟩
  cases step with
  | same => exact ⟨c, found, .refl _⟩
  | connect conn claims _ => exact ⟨c, getElem?_append_of_some found _, .refl _⟩
  | keeps here kept => exact replaced here kept.conn
  | added _ here _ => exact replaced here (.refl _)
  | cleared _ _ =>
      obtain ⟨c', here, conn⟩ := found_clear found
      exact ⟨c', here, conn ▸ .refl _⟩

end Tether.Live
