/-
# Tether.Engine.HaltedStream — subscriptions to a stream that has halted

Schema drift halts an instance for good, but leaves it in `e.streams`, and
`subscribeShape` never looks at `Log.Err`.  A request that finds a halted instance is
served from it: with its cache, or with what its log holds past the resume offset.

`Fresh` says of a note that nothing was taken from an instance that was halted before
the request came.  It holds as long as no request for a shape whose stream was halted gets
as far as reading the instance it finds (`PassesHalted`).  `Answered` says how such a
request ends: the client has been sent a snapshot read from the database for each of these
shapes, or `handleSubscribe` has failed and the client has been sent `shape_halted`.  For
this the messages must fit into the buffer (`Roomy`).
-/
import Tether.Engine.Live
import Tether.Lib.Lists

namespace Tether.Live

open Lib Wal Shape Transport

set_option autoImplicit false

variable {C : Type} {u : Setup C} {s t : State C}

/-- Nothing comes from an instance that was halted when the request came. -/
def Note.Fresh : Note C → Prop
  | .served v => ∀ a, v.origin = .stream a → a ∉ v.halted
  | .subscribed _ a halted => a ∉ halted
  | .failed _ _ | .delivered _ _ _ | .resnapshot _ => True

/-- The instance a subscription is served from. -/
def Phase.address : Phase C → Option Nat
  | .replay _ a _ | .offset _ a _ | .rows _ a _ _ | .stored _ a _ _ | .snapshot _ a _ _ _
  | .served _ a => some a
  | .idle | .next | .resume _ _ | .found _ _ _ | .refused _ | .bound _ _ | .loaded _ _ _ _ | .slow
  | .parting => none

/-- A request for a shape whose stream was halted when it came, and one that finds an
instance halted then, has a resume offset that the instance found does not answer to: a
negative one, or one that `Log.After` refuses. -/
def PassesHalted (u : Setup C) (s : State C) : Ev C → Bool
  | .session j =>
      match s.clients[j]? with
      | none => true
      | some c =>
          match c.phase with
          | .found d resumeAt a =>
              (a ∉ c.request.halted && u.key d c.session.claims ∉ c.request.stale) ||
                resumeAt < 0 ||
                (0 < resumeAt && (s.heap[a]?).all fun inst => (inst.log.after resumeAt).isNone)
          | _ => true
  | _ => true

/-- A session that takes a step has an open connection with room for two messages. -/
def Roomy (s : State C) (e : Ev C) : Bool :=
  (e.actor.bind fun j => s.clients[j]?).all fun c =>
    !c.session.conn.closed && c.session.conn.queue.length + 2 ≤ c.session.conn.capacity

/-- `shape_halted` has been put into the buffer since the request came. -/
def Request.Failed (r : Request) (noted : List (Note C)) : Prop :=
  ∃ j text, .failed j text ∈ noted.drop r.begun

/-- If the stream of the shape was halted when the request came, a snapshot of it that was
read from the database has been put into the buffer since. -/
def Request.Renewed (u : Setup C) (claims : C) (r : Request) (noted : List (Note C))
    (name : String) : Prop :=
  ∀ d, u.registry name = some d → u.key d claims ∈ r.stale →
    ∃ v, .served v ∈ noted.drop r.begun ∧ v.defn = d ∧ v.origin = .database

/-- How a request ends; `noted` is what was noted about the client. -/
def Client.Answered (u : Setup C) (c : Client C) (noted : List (Note C)) : Prop :=
  c.request.Failed noted ∨ ∀ name ∈ c.request.asked, c.request.Renewed u c.session.claims noted name

/-! ## Nothing is taken from a halted instance -/

structure Avoids (s : State C) : Prop where
  known : ∀ c ∈ s.clients, ∀ a ∈ c.request.halted, a < s.heap.length
  phase : ∀ c ∈ s.clients, ∀ a, c.phase.address = some a → a ∉ c.request.halted
  trace : ∀ n ∈ s.trace, n.Fresh

theorem avoids_background (avoids : Avoids s) (quiet : Background s t) : Avoids t where
  known c member a listed := by
    obtain ⟨c', member', same⟩ := quiet.control member
    have request : c'.request = c.request := congrArg (fun k => k.2.2.2) same
    exact (avoids.known c' member' a (request ▸ listed)).trans_le quiet.heap.length_le
  phase c member a served := by
    obtain ⟨c', member', same⟩ := quiet.control member
    have request : c'.request = c.request := congrArg (fun k => k.2.2.2) same
    have phase : c'.phase = c.phase := congrArg (fun k => k.2.1) same
    exact request ▸ avoids.phase c' member' a (phase ▸ served)
  trace n member := by
    obtain ⟨notes, grown, background⟩ := quiet.trace
    rw [grown] at member
    rcases List.mem_append.1 member with old | new
    · exact avoids.trace n old
    · have harmless := background n new
      cases n with
      | delivered | resnapshot => trivial
      | served | failed | subscribed => cases harmless

theorem avoids_store (avoids : Avoids s) {j : Nat} {c : Client C} {d : Definition C}
    {inst : Instance C} {lsn : LSN} {rows : List Row} (found : s.clients[j]? = some c) :
    Avoids (s.store u j c d inst lsn rows) where
  known c' member a listed := by
    simp only [State.store, State.setClient] at member ⊢
    rw [List.length_append]
    rcases List.mem_or_eq_of_mem_set member with old | rfl
    · exact (avoids.known c' old a listed).trans (Nat.lt_succ_self _)
    · exact (avoids.known c (List.mem_of_getElem? found) a listed).trans (Nat.lt_succ_self _)
  phase c' member a served := by
    simp only [State.store, State.setClient] at member
    rcases List.mem_or_eq_of_mem_set member with old | rfl
    · exact avoids.phase c' old a served
    · -- the new instance has an address that no request has seen
      cases served
      intro listed
      exact absurd (avoids.known c (List.mem_of_getElem? found) _ listed) (Nat.lt_irrefl _)
  trace := avoids.trace

section Next

variable {heap : List (Instance C)} {streams : KeyMap String Nat} {j : Nat} {c c' : Client C}
  {notes : List (Note C)}

/-- What `avoids` asks of one client and of the notes of one of its steps. -/
structure StepAvoids (c c' : Client C) (notes : List (Note C)) : Prop where
  request : c'.request = c.request
  phase : ∀ a, c'.phase.address = some a → a ∉ c.request.halted
  notes : ∀ n ∈ notes, n.Fresh

theorem stepAvoids_silent (request : c'.request = c.request)
    (unserved : c'.phase.address = none) (fresh : ∀ n ∈ notes, n.Fresh) :
    StepAvoids c c' notes :=
  ⟨request, fun a served => (Option.some_ne_none a (served.symm.trans unserved)).elim, fresh⟩

theorem fresh_fail (c : Client C) (j : Nat) (text : String) :
    ∀ n ∈ (c.fail j text).2, n.Fresh := by
  intro n member
  rw [fail_notes c j text n member]
  trivial

theorem stepAvoids_served {a : Nat} (live : a ∉ c.request.halted) (request : c'.request = c.request)
    (served : c'.phase.address = some a) (fresh : ∀ n ∈ notes, n.Fresh) :
    StepAvoids c c' notes := by
  refine ⟨request, fun b address => ?_, fresh⟩
  cases served.symm.trans address
  exact live

theorem stepAvoids_next (avoids : ∀ a, c.phase.address = some a → a ∉ c.request.halted)
    (passes : ∀ d resumeAt a inst, c.phase = .found d resumeAt a → heap[a]? = some inst →
      (a ∉ c.request.halted ∧ u.key d c.session.claims ∉ c.request.stale) ∨
        resumeAt < 0 ∨ 0 < resumeAt ∧ inst.log.after resumeAt = none)
    (next : c.Next u heap streams j c' notes) : StepAvoids c c' notes := by
  cases next with
  | finish | resume | found | bound | refuse | slow | bye =>
      exact stepAvoids_silent rfl rfl (by simp)
  | fail text _ => exact stepAvoids_silent rfl rfl (fresh_fail _ _ _)
  | unknown conn phase _ _ =>
      refine stepAvoids_silent rfl ?_ (by simp)
      show c.phase.address = none
      rw [phase]
      rfl
  | @replay d resumeAt a inst events phase found positive held =>
      have live : a ∉ c.request.halted := by
        rcases passes d resumeAt a inst phase found with ⟨live, -⟩ | negative | ⟨-, refused⟩
        · exact live
        · omega
        · rw [held] at refused
          cases refused
      exact stepAvoids_served live rfl rfl (by simp)
  | @offset d a inst phase found =>
      have live : a ∉ c.request.halted := by
        rcases passes d 0 a inst phase found with ⟨live, -⟩ | negative | ⟨positive, -⟩
        · exact live
        · omega
        · omega
      exact stepAvoids_served live rfl rfl (by simp)
  | @event d a ev events notes conn phase noted =>
      have live : a ∉ c.request.halted := avoids a (by rw [phase]; rfl)
      refine stepAvoids_served live rfl rfl fun n member => ?_
      rw [noted n member]
      intro b read
      cases read
      exact live
  | replayed phase => exact stepAvoids_served (avoids _ (by rw [phase]; rfl)) rfl rfl (by simp)
  | rows phase _ => exact stepAvoids_served (avoids _ (by rw [phase]; rfl)) rfl rfl (by simp)
  | @cached d a offset rows conn phase =>
      have live : a ∉ c.request.halted := avoids a (by rw [phase]; rfl)
      refine stepAvoids_served live rfl rfl fun n member => ?_
      cases List.mem_singleton.1 member
      intro b read
      cases read
      exact live
  | stored phase => exact stepAvoids_served (avoids _ (by rw [phase]; rfl)) rfl rfl (by simp)
  | loaded conn phase =>
      refine stepAvoids_served (avoids _ (by rw [phase]; rfl)) rfl rfl fun n member => ?_
      cases List.mem_singleton.1 member
      intro b read
      cases read
  | @subscribed d a shapes phase =>
      have live : a ∉ c.request.halted := avoids a (by rw [phase]; rfl)
      refine ⟨rfl, fun b served => (Option.some_ne_none b served.symm).elim, fun n member => ?_⟩
      cases List.mem_singleton.1 member
      exact live

end Next

theorem avoids_set (avoids : Avoids s) {j : Nat} {c c' : Client C} {notes : List (Note C)}
    (found : s.clients[j]? = some c) (stepped : StepAvoids c c' notes) :
    Avoids { s.setClient j c' with trace := s.trace ++ notes } where
  known d member a listed := by
    rcases List.mem_or_eq_of_mem_set member with old | rfl
    · exact avoids.known d old a listed
    · exact avoids.known c (List.mem_of_getElem? found) a (stepped.request ▸ listed)
  phase d member a served := by
    rcases List.mem_or_eq_of_mem_set member with old | rfl
    · exact avoids.phase d old a served
    · exact stepped.request ▸ stepped.phase a served
  trace n member := by
    rcases List.mem_append.1 member with old | new
    · exact avoids.trace n old
    · exact stepped.notes n new

/-- A request starts with the instances that are halted now. -/
theorem avoids_subscribe (avoids : Avoids s) {j : Nat} {c : Client C} {notes : List (Note C)}
    {names : List String} (request : c.request = s.request j names)
    (unserved : c.phase.address = none) (fresh : ∀ n ∈ notes, n.Fresh) :
    Avoids { s.setClient j c with trace := s.trace ++ notes } where
  known d member a listed := by
    rcases List.mem_or_eq_of_mem_set member with old | rfl
    · exact avoids.known d old a listed
    · rw [request] at listed
      exact List.mem_range.1 (List.mem_of_mem_filter listed)
  phase d member a served := by
    rcases List.mem_or_eq_of_mem_set member with old | rfl
    · exact avoids.phase d old a served
    · cases unserved.symm.trans served
  trace n member := by
    rcases List.mem_append.1 member with old | new
    · exact avoids.trace n old
    · exact fresh n new

theorem passesHalted_session {j : Nat} {c : Client C} (found : s.clients[j]? = some c)
    (passes : PassesHalted u s (.session j) = true) (d : Definition C) (resumeAt : Int) (a : Nat)
    (inst : Instance C) (phase : c.phase = .found d resumeAt a) (here : s.heap[a]? = some inst) :
    (a ∉ c.request.halted ∧ u.key d c.session.claims ∉ c.request.stale) ∨
      resumeAt < 0 ∨ 0 < resumeAt ∧ inst.log.after resumeAt = none := by
  simpa [PassesHalted, found, phase, here, or_assoc] using passes

theorem avoids_step {e : Ev C} (avoids : Avoids s) (passes : PassesHalted u s e = true)
    (stepped : step u s e = some t) : Avoids t := by
  cases step_spec stepped with
  | connect conn _ =>
      refine ⟨fun c member => ?_, fun c member => ?_, avoids.trace⟩
      · rcases List.mem_append.1 member with old | new
        · exact avoids.known c old
        · cases List.mem_singleton.1 new
          simp
      · rcases List.mem_append.1 member with old | new
        · exact avoids.phase c old
        · cases List.mem_singleton.1 new
          simp [Phase.address]
  | background quiet _ => exact avoids_background avoids quiet
  | store _ found _ => exact avoids_store avoids found
  | client _ found acts =>
      cases acts with
      | subscribe names _ => exact avoids_subscribe avoids rfl rfl (by simp)
      | refuse names text _ => exact avoids_subscribe avoids rfl rfl (fresh_fail _ _ _)
      | fail text _ => exact avoids_set avoids found (stepAvoids_silent rfl rfl (fresh_fail _ _ _))
      | take => exact avoids_set avoids found (stepAvoids_silent rfl rfl (by simp))
      | next event moved =>
          subst event
          refine avoids_set avoids found (stepAvoids_next ?_ ?_ moved)
          · exact avoids.phase _ (List.mem_of_getElem? found)
          · exact passesHalted_session found passes

/-! ## How a request ends -/

section Progress

variable {noted noted' : List (Note C)} {claims : C} {phase : Phase C} {names : List String}
  {r : Request}

theorem Request.Failed.mono (failed : r.Failed noted) (grown : noted <+: noted') :
    r.Failed noted' := by
  obtain ⟨j, text, member⟩ := failed
  obtain ⟨more, rfl⟩ := grown
  rw [Request.Failed, List.drop_append]
  exact ⟨j, text, List.mem_append_left _ member⟩

theorem Request.Renewed.mono {name : String} (renewed : r.Renewed u claims noted name)
    (grown : noted <+: noted') : r.Renewed u claims noted' name := by
  intro d registered halted
  obtain ⟨v, member, own⟩ := renewed d registered halted
  obtain ⟨more, rfl⟩ := grown
  rw [List.drop_append]
  exact ⟨v, List.mem_append_left _ member, own⟩

/-- The shapes that are asked for are still to come, except the one the goroutine is at, or
have been renewed. -/
def Request.Open (u : Setup C) (claims : C) (names : List String) (r : Request)
    (noted : List (Note C)) (d : Definition C) : Prop :=
  u.registry d.name = some d ∧ ∀ name ∈ r.asked, name ∈ names ∨ name = d.name ∨
    r.Renewed u claims noted name

/-- How far the request has come, by the phase of the session's goroutine. -/
def Request.Progress (u : Setup C) (claims : C) (names : List String) (r : Request)
    (noted : List (Note C)) : Phase C → Prop
  | .idle => r.Failed noted ∨ ∀ name ∈ r.asked, r.Renewed u claims noted name
  | .next | .served _ _ => ∀ name ∈ r.asked, name ∈ names ∨ r.Renewed u claims noted name
  | .resume d _ | .found d _ _ | .refused d | .bound d _ | .loaded d _ _ _ | .stored d _ _ _
  | .snapshot d _ _ _ _ => r.Open u claims names noted d
  | .replay d _ _ | .offset d _ _ | .rows d _ _ _ =>
      u.key d claims ∉ r.stale ∧ r.Open u claims names noted d
  -- there is room for every message
  | .slow | .parting => False

theorem Request.Open.mono {d : Definition C} (opened : r.Open u claims names noted d)
    (grown : noted <+: noted') : r.Open u claims names noted' d :=
  ⟨opened.1, fun name asked => (opened.2 name asked).imp_right fun either =>
    either.imp_right fun renewed => renewed.mono grown⟩

theorem Request.Progress.mono (progress : r.Progress u claims names noted phase)
    (grown : noted <+: noted') : r.Progress u claims names noted' phase := by
  cases phase with
  | idle =>
      exact progress.imp (fun failed => failed.mono grown) fun renewed name asked =>
        (renewed name asked).mono grown
  | next | served =>
      exact fun name asked => (progress name asked).imp_right fun renewed => renewed.mono grown
  | replay | offset | rows => exact ⟨progress.1, progress.2.mono grown⟩
  | slow | parting => exact progress
  | _ => exact Request.Open.mono progress grown

/-- The goroutine is done with `d`: its stream was not halted, or it has been renewed. -/
theorem Request.Open.served {d : Definition C} (opened : r.Open u claims names noted d)
    (grown : noted <+: noted')
    (done : u.key d claims ∈ r.stale →
      ∃ v, .served v ∈ noted'.drop r.begun ∧ v.defn = d ∧ v.origin = .database) :
    ∀ name ∈ r.asked, name ∈ names ∨ r.Renewed u claims noted' name := by
  intro name asked
  rcases opened.2 name asked with later | rfl | renewed
  · exact .inl later
  · refine .inr fun d' registered halted => ?_
    cases opened.1.symm.trans registered
    exact done halted
  · exact .inr (renewed.mono grown)

end Progress

/-- The request of a client, `noted` being what was noted about it. -/
structure Client.Progress (u : Setup C) (noted : List (Note C)) (c : Client C) : Prop where
  begun : c.request.begun ≤ noted.length
  phase : c.request.Progress u c.session.claims c.names noted c.phase

theorem Client.Progress.mono {c c' : Client C} {noted noted' : List (Note C)}
    (progress : c.Progress u noted) (same : c.control = c'.control) (grown : noted <+: noted') :
    c'.Progress u noted' := by
  have claims : c.session.claims = c'.session.claims := congrArg Prod.fst same
  have phase : c.phase = c'.phase := congrArg (fun k => k.2.1) same
  have names : c.names = c'.names := congrArg (fun k => k.2.2.1) same
  have request : c.request = c'.request := congrArg (fun k => k.2.2.2) same
  refine ⟨?_, ?_⟩
  · rw [← request]
    exact progress.begun.trans grown.length_le
  · rw [← claims, ← phase, ← names, ← request]
    exact progress.phase.mono grown

/-- A request that fails with room in the buffer says so. -/
theorem failed_fail {c : Client C} {noted : List (Note C)} (j : Nat) (text : String)
    (room : Conn.Room 1 c.session.conn) (begun : c.request.begun ≤ noted.length) :
    (c.fail j text).1.Progress u (noted ++ (c.fail j text).2) := by
  have told : (c.fail j text).2 = [.failed j text] := if_pos (room.enqueue _).1
  refine ⟨?_, .inl ⟨j, text, ?_⟩⟩
  · exact begun.trans (by simp)
  · show Note.failed j text ∈ (noted ++ (c.fail j text).2).drop c.request.begun
    rw [told, List.drop_append_of_le_length begun]
    exact List.mem_append_right _ List.mem_cons_self

section Next

variable {heap : List (Instance C)} {streams : KeyMap String Nat} {j : Nat} {c c' : Client C}
  {notes noted : List (Note C)}

theorem open_of_takes {held : Option Nat} {d : Definition C} (progress : c.Progress u noted)
    (takes : c.phase.Takes held d) : c.request.Open u c.session.claims c.names noted d := by
  have here := progress.phase
  generalize c.phase = phase at here takes
  cases phase with
  | resume | found =>
      cases takes.1
      exact here
  | refused =>
      cases takes
      exact here
  | _ => cases takes

theorem progress_next (progress : c.Progress u noted) (room : Conn.Room 2 c.session.conn)
    (passes : ∀ d resumeAt a inst, c.phase = .found d resumeAt a → heap[a]? = some inst →
      (a ∉ c.request.halted ∧ u.key d c.session.claims ∉ c.request.stale) ∨
        resumeAt < 0 ∨ 0 < resumeAt ∧ inst.log.after resumeAt = none)
    (next : c.Next u heap streams j c' notes) : c'.Progress u (noted ++ notes) := by
  have grown : noted <+: noted ++ notes := List.prefix_append _ _
  have begun : c.request.begun ≤ (noted ++ notes).length :=
    progress.begun.trans grown.length_le
  have here := progress.phase
  cases next with
  | finish phase names =>
      rw [phase, names] at here
      refine ⟨begun, .inr fun name asked => ?_⟩
      exact ((here name asked).resolve_left List.not_mem_nil).mono grown
  | @unknown name names conn phase left unregistered =>
      rw [phase, left] at here
      refine ⟨begun, ?_⟩
      show c.request.Progress u c.session.claims names _ c.phase
      rw [phase]
      intro name' asked
      rcases here name' asked with coming | renewed
      · rcases List.mem_cons.1 coming with rfl | later
        · refine .inr fun d registered => ?_
          cases unregistered.symm.trans registered
        · exact .inl later
      · exact .inr (renewed.mono grown)
  | @resume name names d resumeAt phase left registered =>
      rw [phase, left] at here
      have own := u.named name d registered
      refine ⟨begun, own.symm ▸ registered, fun name' asked => ?_⟩
      rcases here name' asked with coming | renewed
      · rcases List.mem_cons.1 coming with rfl | later
        · exact .inr (.inl own.symm)
        · exact .inl later
      · exact .inr (.inr (renewed.mono grown))
  | found phase _ | refuse phase =>
      rw [phase] at here
      exact ⟨begun, Request.Open.mono here grown⟩
  | bound conn takes _ => exact ⟨begun, (open_of_takes progress takes).mono grown⟩
  | @fail conn text same =>
      refine failed_fail j text ?_ progress.begun
      rcases same with rfl | ⟨code, message, shape, rfl⟩
      · exact room.mono (by omega)
      · exact (room.enqueue _).2.2
  | @replay d resumeAt a inst events phase found positive held =>
      have live : u.key d c.session.claims ∉ c.request.stale := by
        rcases passes d resumeAt a inst phase found with ⟨-, live⟩ | negative | ⟨-, refused⟩
        · exact live
        · omega
        · rw [held] at refused
          cases refused
      rw [phase] at here
      exact ⟨begun, live, Request.Open.mono here grown⟩
  | @offset d a inst phase found =>
      have live : u.key d c.session.claims ∉ c.request.stale := by
        rcases passes d 0 a inst phase found with ⟨-, live⟩ | negative | ⟨positive, -⟩
        · exact live
        · omega
        · omega
      rw [phase] at here
      exact ⟨begun, live, Request.Open.mono here grown⟩
  | event conn phase _ =>
      rw [phase] at here
      exact ⟨begun, here.1, here.2.mono grown⟩
  | rows phase _ =>
      rw [phase] at here
      exact ⟨begun, here.1, here.2.mono grown⟩
  | replayed phase =>
      rw [phase] at here
      exact ⟨begun, here.2.served grown fun halted => absurd halted here.1⟩
  | cached conn phase =>
      rw [phase] at here
      exact ⟨begun, here.2.served grown fun halted => absurd halted here.1⟩
  | stored phase =>
      rw [phase] at here
      exact ⟨begun, Request.Open.mono here grown⟩
  | @loaded d a lsn rows offset conn phase =>
      rw [phase] at here
      have noted : c.note j d (.snapshot d.name lsn offset rows) .database ∈
          (noted ++ [c.note j d (.snapshot d.name lsn offset rows) .database]).drop
            c.request.begun := by
        rw [List.drop_append_of_le_length progress.begun]
        exact List.mem_append_right _ List.mem_cons_self
      exact ⟨begun, Request.Open.served here grown fun _ => ⟨_, noted, rfl, rfl⟩⟩
  | subscribed shapes phase =>
      rw [phase] at here
      exact ⟨begun, fun name asked => (here name asked).imp_right fun renewed => renewed.mono grown⟩
  | @slow m conn refused =>
      have accepted := ((room.mono (show 1 ≤ 2 by omega)).enqueue m).1
      cases refused.symm.trans accepted
  | bye conn phase =>
      rw [phase] at here
      exact here.elim

end Next

def Progresses (u : Setup C) (s : State C) : Prop :=
  ∀ (j : Nat) (c : Client C), s.clients[j]? = some c → c.Progress u (s.about j)

theorem about_grown {notes : List (Note C)} (grown : t.trace = s.trace ++ notes) (j : Nat) :
    t.about j = s.about j ++ notes.filter fun n => n.client = j := by
  rw [State.about, State.about, grown, List.filter_append]

/-- A step of client `j`, whose notes are all about it. -/
theorem progresses_set (progresses : Progresses u s) {j : Nat} {c' : Client C}
    {notes : List (Note C)} (own : ∀ n ∈ notes, n.client = j)
    (stepped : c'.Progress u (s.about j ++ notes)) :
    Progresses u { s.setClient j c' with trace := s.trace ++ notes } := by
  intro k d found
  have grown : State.about { s.setClient j c' with trace := s.trace ++ notes } k = _ :=
    about_grown (s := s) rfl k
  rw [grown]
  rcases getElem?_set_cases found with ⟨rfl, rfl⟩ | ⟨-, old⟩
  · rw [List.filter_eq_self.2 (by simpa using own)]
    exact stepped
  · exact (progresses k d old).mono rfl (List.prefix_append _ _)

theorem own_fail (c : Client C) (j : Nat) (text : String) :
    ∀ n ∈ (c.fail j text).2, n.client = j := by
  intro n member
  rw [fail_notes c j text n member]
  rfl

theorem own_next {heap : List (Instance C)} {streams : KeyMap String Nat} {j : Nat}
    {c c' : Client C} {notes : List (Note C)} (next : c.Next u heap streams j c' notes) :
    ∀ n ∈ notes, n.client = j := by
  cases next with
  | fail text _ => exact own_fail _ _ _
  | event conn _ noted =>
      intro n member
      rw [noted n member]
      rfl
  | _ => simp [Client.note, Note.client]

theorem room_of_roomy {e : Ev C} {j : Nat} {c : Client C} (roomy : Roomy s e = true)
    (actor : e.actor = some j) (found : s.clients[j]? = some c) : Conn.Room 2 c.session.conn := by
  simpa [Roomy, actor, found, Conn.Room] using roomy

theorem progresses_step {e : Ev C} (progresses : Progresses u s)
    (passes : PassesHalted u s e = true) (roomy : Roomy s e = true)
    (stepped : step u s e = some t) : Progresses u t := by
  cases step_spec stepped with
  | connect conn _ =>
      intro j c found
      rcases getElem?_concat_cases found with old | rfl
      · exact progresses j c old
      · exact ⟨Nat.zero_le _, .inr (by simp)⟩
  | background quiet _ =>
      intro j c found
      obtain ⟨notes, grown, -⟩ := quiet.trace
      obtain ⟨c', found', same⟩ := quiet.client found
      rw [about_grown grown]
      exact (progresses j c' found').mono same (List.prefix_append _ _)
  | @store j c d inst lsn rows _ found phase =>
      have here := progresses j c found
      have stored : Client.Progress u (s.about j ++ [])
          { c with phase := .stored d s.heap.length lsn rows } := by
        refine ⟨here.begun.trans (by simp), ?_⟩
        have opened := here.phase
        rw [phase] at opened
        exact Request.Open.mono opened (List.prefix_append _ _)
      have set := progresses_set progresses (by simp) stored
      intro k c' found'
      have after := set k c' found'
      simpa [State.about, State.store, State.setClient] using after
  | @client j c c' notes actor found acts =>
      have here := progresses j c found
      have room := room_of_roomy roomy actor found
      cases acts with
      | subscribe names _ =>
          refine progresses_set progresses (by simp) ⟨?_, fun name asked => .inl asked⟩
          simp [State.request]
      | refuse names text _ =>
          exact progresses_set progresses (own_fail _ _ _)
            (failed_fail j text (room.mono (by omega)) (by simp [State.request]))
      | fail text _ =>
          exact progresses_set progresses (own_fail _ _ _)
            (failed_fail j text (room.mono (by omega)) here.begun)
      | take _ phase _ =>
          refine progresses_set progresses (by simp) ⟨here.begun.trans (by simp), ?_⟩
          have opened := here.phase
          rw [phase] at opened
          exact Request.Open.mono opened (List.prefix_append _ _)
      | next event moved =>
          subst event
          exact progresses_set progresses (own_next moved)
            (progress_next here room (passesHalted_session found passes) moved)

/-- **A halted stream is not served.**  In a run in which no request for a shape whose stream
was halted before gets to read an instance, nothing that `subscribeShape` enqueues is taken
from an instance that was halted then, and no subscription is completed with one.  If there
is room in the buffers, every request that is over has been answered with `shape_halted`, or
with a snapshot read from the database for each of these shapes. -/
theorem fresh_of_passesHalted (u : Setup C) (es : List (Ev C)) (s : State C)
    (ran : (machine u).run {} es = some s)
    (passes : (machine u).Meets (fun s e => PassesHalted u s e = true) {} es) :
    (∀ n ∈ s.trace, n.Fresh) ∧
      ((machine u).Meets (fun s e => Roomy s e = true) {} es →
        ∀ (j : Nat) (c : Client C), s.clients[j]? = some c → c.phase = .idle →
          c.Answered u (s.about j)) := by
  constructor
  · have start : Avoids ({} : State C) := ⟨by simp, by simp, by simp⟩
    have along : (machine u).Along Avoids {} es :=
      Machine.along_of_meets (I := Avoids) (fun _ avoids => avoids)
        (fun _ _ _ avoids passes stepped => avoids_step avoids passes stepped) start passes
    exact (along.last ran).trace
  · intro roomy j c found idle
    have start : Progresses u ({} : State C) := by
      intro j c found
      simp at found
    have along : (machine u).Along (Progresses u) {} es :=
      Machine.along_of_meets (I := Progresses u) (fun _ progresses => progresses)
        (fun _ _ _ progresses both stepped => progresses_step progresses both.1 both.2 stepped)
        start (passes.and roomy)
    have progress := ((along.last ran) j c found).phase
    rw [idle] at progress
    exact progress

namespace Drift

open Tasks

/-- The columns of the table change after a first insert. -/
def drifted : List (Ev Unit) :=
  subscribed ++ dispatched { inserted 2 20 with relationFingerprint := "v1" } 7 ++
    dispatched { inserted 3 25 with relationFingerprint := "v2" } 6

/-- What was served, from where, and which instances were halted before. -/
def served : Note Unit → Option (Message × Origin × List Nat)
  | .served v => some (v.message, v.origin, v.halted)
  | _ => none

/-- A client with a negative resume offset. -/
def passing : List (Ev Unit) :=
  [.connect (), .hello 1 (KeyMap.ofList [("tasks", -1)]), .subscribe 1 ["tasks"] none,
    .session 1, .session 1, .session 1, .take 1 30 [task 1, task 2, task 3]] ++
    List.replicate 5 (.session 1)

def rests : Phase Unit → Bool
  | .idle => true
  | _ => false

theorem idle_of_rests {phase : Phase Unit} (finished : rests phase = true) : phase = .idle := by
  cases phase <;> first | rfl | cases finished

/-- The second client is sent what `Take` has read, and its request is over. -/
theorem fresh_of_passesHalted_passing :
    ∃ s c, (machine setup).run {} (drifted ++ passing) = some s ∧
      s.trace.filterMap served = [(.snapshot "tasks" 10 1 {task 1}, .database, []),
        (.snapshot "tasks" 30 3 {task 1, task 2, task 3}, .database, [0])] ∧
      (∀ n ∈ s.trace, n.Fresh) ∧ s.clients[1]? = some c ∧
      c.request.stale = {streamKey "tasks" ""} ∧ c.Answered setup (s.about 1) := by
  have replay : ((machine setup).run {} (drifted ++ passing)).map
      (fun s => (s.trace.filterMap served, (s.clients[1]?).map fun c =>
        (c.request.stale, rests c.phase))) =
        some ([(.snapshot "tasks" 10 1 {task 1}, .database, []),
          (.snapshot "tasks" 30 3 {task 1, task 2, task 3}, .database, [0])],
          some ({streamKey "tasks" ""}, true)) := by
    decide +kernel
  obtain ⟨s, ran, seen⟩ := Option.map_eq_some_iff.1 replay
  obtain ⟨trace, client⟩ := Prod.mk.inj seen
  obtain ⟨c, found, ends⟩ := Option.map_eq_some_iff.1 client
  obtain ⟨stale, rests⟩ := Prod.mk.inj ends
  obtain ⟨fresh, answered⟩ :=
    fresh_of_passesHalted setup _ s ran (by decide +kernel)
  exact ⟨s, c, ran, trace, fresh, found, stale,
    answered (by decide +kernel) 1 c found (idle_of_rests rests)⟩

/-- A client without a resume offset. -/
def resubscribed : List (Ev Unit) :=
  [.connect (), .subscribe 1 ["tasks"] none] ++ List.replicate 5 (.session 1)

/-- It is sent the cache of the halted instance, which lacks the third task. -/
theorem halted_served :
    ∃ s, (machine setup).run {} (drifted ++ resubscribed) = some s ∧
      s.trace.filterMap served = [(.snapshot "tasks" 10 1 {task 1}, .database, []),
        (.snapshot "tasks" 0 2 {task 2, task 1}, .stream 0, [0])] ∧
      ¬ ∀ n ∈ s.trace, n.Fresh := by
  have replay : ((machine setup).run {} (drifted ++ resubscribed)).map
      (fun s => s.trace.filterMap served) =
        some [(.snapshot "tasks" 10 1 {task 1}, .database, []),
          (.snapshot "tasks" 0 2 {task 2, task 1}, .stream 0, [0])] := by
    decide +kernel
  obtain ⟨s, ran, trace⟩ := Option.map_eq_some_iff.1 replay
  refine ⟨s, ran, trace, fun fresh => ?_⟩
  have last : (Message.snapshot "tasks" 0 2 {task 2, task 1}, Origin.stream 0, [0]) ∈
      s.trace.filterMap served := by
    rw [trace]
    simp
  obtain ⟨n, member, same⟩ := List.mem_filterMap.1 last
  have avoided := fresh n member
  cases n with
  | served v =>
      obtain ⟨-, same⟩ := Prod.mk.inj (Option.some.inj same)
      obtain ⟨origin, halted⟩ := Prod.mk.inj same
      refine avoided 0 origin ?_
      rw [halted]
      simp
  | failed | delivered | subscribed | resnapshot => cases same

end Drift

end Tether.Live
