/-
# Tether.Engine.Warning — recovery and the sessions it does not warn

`handleSlotLagExceeded` copies the sessions, buffers a `must_resnapshot` for each of the
copies, and then takes `e.mu` once more to clear the memberships of whatever sessions there
are by then.  A session that connects after the copy, or that completes a subscription after
its message, is cleared without a word: it stays connected and gets no more changes.

The state adds to `Live` where in each buffer the snapshot or replay of a subscription ended.
`Warns` is the law for the moment of clearing: past that point there is a `must_resnapshot`,
or the session is disconnected.  It holds if every subscription that is completed while the
recovery has passed over the session was served before the session's message (`Settles`).
-/
import Tether.Engine.Buffers

namespace Tether.Warning

open Lib Wal Shape Transport Live

set_option autoImplicit false

/-- `ends` is where in its buffer the last subscription of a client ended, and `since` is
that place for each subscription it has completed. -/
structure State (C : Type) where
  live : Live.State C := {}
  ends : Nat → Nat := fun _ => 0
  since : Nat → String → Nat := fun _ _ => 0

/-- The message of `broadcastMustResnapshot`. -/
def warning : Sent := ⟨.error Subscribe.codeMustResnapshot slotLagExceeded "", none⟩

section Steps

variable {C : Type} (u : Setup C)

/-- Every message that was ever put into the buffer of client `j`. -/
def accepted (live : Live.State C) (j : Nat) : List Sent :=
  ((live.clients[j]?).map fun c => c.session.conn.accepted).getD []

/-- The shape of the subscription that client `j` is about to complete. -/
def completing (live : Live.State C) (j : Nat) : Option String :=
  (live.clients[j]?).bind fun c =>
    match c.phase with
    | .served d _ => some d.name
    | _ => none

/-- A subscription ends where the buffer ends when its goroutine comes to `addShape`. -/
def endsAfter (live : Live.State C) (ends : Nat → Nat) : Live.Ev C → Nat → Nat
  | .session j, i =>
      if i = j ∧ (completing live j).isSome then (accepted live j).length else ends i
  | _, i => ends i

def sinceAfter (live : Live.State C) (ends : Nat → Nat) (since : Nat → String → Nat) :
    Live.Ev C → Nat → String → Nat
  | .session j, i, name =>
      if i = j ∧ completing live j = some name then ends j else since i name
  | _, i, name => since i name

def step (s : State C) (e : Live.Ev C) : Option (State C) :=
  (Live.step u s.live e).map fun live =>
    ⟨live, endsAfter live s.ends e, sinceAfter s.live s.ends s.since e⟩

def machine : Machine (State C) (Live.Ev C) := ⟨(· = {}), step u⟩

end Steps

variable {C : Type} {u : Setup C} {s t : State C}

/-- The session is disconnected, or was sent a `must_resnapshot` past place `n`. -/
def Told (live : Live.State C) (j n : Nat) : Prop :=
  ((live.clients[j]?).any fun c => c.session.conn.closed) = true ∨
    warning ∈ (accepted live j).drop n

instance (live : Live.State C) (j n : Nat) : Decidable (Told live j n) :=
  inferInstanceAs (Decidable (_ ∨ _))

/-- **No silent removal.**  When the recovery clears the memberships, every session that
loses one has been told since it subscribed. -/
def Warns (s : State C) (e : Live.Ev C) : Prop :=
  e = .run → s.live.work = .broadcasting [] → ∀ j c, s.live.clients[j]? = some c →
    c.listed = true → ∀ name ∈ c.session.shapes, Told s.live j (s.since j name)

/-- A session completes no subscription between its message and the clearing, unless it was
served before the message. -/
def Settles (s : State C) : Live.Ev C → Bool
  | .session j =>
      match completing s.live j, s.live.work.unwarned with
      | some _, some left => j ∈ left || Told s.live j (s.ends j)
      | _, _ => true
  | _ => true

/-! ## What a step does to the buffers -/

section Step

variable {live live' : Live.State C} {e : Live.Ev C}

/-- What the broadcast does to the session it comes to. -/
theorem told_broadcast {conn conn' : Conn Sent} {ok : Bool}
    (outcome : conn.enqueue warning = (conn', ok)) :
    (ok = true ∧ conn'.accepted = conn.accepted ++ [warning]) ∨ ok = false ∧ conn' = conn := by
  rcases conn.enqueue_cases warning with ⟨-, accepted, -, grown⟩ | refused
  · rw [outcome] at accepted grown
    exact .inl ⟨accepted, grown⟩
  · rw [outcome] at refused
    cases refused
    exact .inr ⟨rfl, rfl⟩

theorem accepted_of_found {j : Nat} {c : Client C} (found : live.clients[j]? = some c) :
    accepted live j = c.session.conn.accepted := by
  simp [accepted, found]

theorem shapes_clear {j : Nat} {c : Client C} (found : live.clear.clients[j]? = some c)
    (listed : c.listed = true) : c.session.shapes = ∅ := by
  simp only [State.clear, List.getElem?_map] at found
  obtain ⟨old, -, rfl⟩ := Option.map_eq_some_iff.1 found
  by_cases before : old.listed = true
  · simp [before]
  · simp [before] at listed

/-- A membership was there before, or is the one that the session adds. -/
theorem member_of_clients {clients : List (Client C)} (step : Clients live e clients) {j : Nat}
    {c : Client C} (found : clients[j]? = some c) (listed : c.listed = true) {name : String}
    (member : name ∈ c.session.shapes) :
    (∃ c, live.clients[j]? = some c ∧ c.listed = true ∧ name ∈ c.session.shapes) ∨
      e = .session j ∧ completing live j = some name := by
  cases step with
  | same => exact .inl ⟨c, found, listed, member⟩
  | connect conn claims _ =>
      rcases getElem?_concat_cases found with old | rfl
      · exact .inl ⟨c, old, listed, member⟩
      · cases member
  | keeps here kept =>
      rcases getElem?_set_cases found with ⟨rfl, rfl⟩ | ⟨-, old⟩
      · exact .inl ⟨_, here, kept.listed listed, kept.shapes ▸ member⟩
      · exact .inl ⟨c, old, listed, member⟩
  | added event here phase =>
      rcases getElem?_set_cases found with ⟨rfl, rfl⟩ | ⟨-, old⟩
      · rcases Finset.mem_insert.1 member with rfl | older
        · exact .inr ⟨event, by simp [completing, here, phase]⟩
        · exact .inl ⟨_, here, listed, older⟩
      · exact .inl ⟨c, old, listed, member⟩
  | cleared _ _ =>
      rw [shapes_clear found listed] at member
      cases member

theorem accepted_extends (step : Clients live e live'.clients) (j : Nat) :
    accepted live j <+: accepted live' j := by
  cases found : live.clients[j]? with
  | none => simp [accepted, found]
  | some c =>
      obtain ⟨c', here, grown⟩ := step.extends found
      rw [accepted_of_found found, accepted_of_found here]
      exact grown.accepted

/-- What has been told stays told. -/
theorem Told.extends (step : Clients live e live'.clients) {j n : Nat} (told : Told live j n) :
    Told live' j n := by
  rcases told with gone | sent
  · cases found : live.clients[j]? with
    | none => simp [found] at gone
    | some c =>
        rw [found, Option.any_some] at gone
        obtain ⟨c', here, grown⟩ := step.extends found
        left
        rw [here, Option.any_some]
        exact grown.closed gone
  · obtain ⟨more, grown⟩ := accepted_extends step j
    right
    rw [← grown, List.drop_append]
    exact List.mem_append_left _ sent

/-- How a step can leave the recovery in its broadcast. -/
inductive Broadcasts (live live' : Live.State C) (left : List Nat) : Prop where
  | same : live.work.unwarned = some left → Broadcasts live live' left
  | starts : left.Perm live.listed → live'.clients = live.clients → Broadcasts live live' left
  | next {j : Nat} {c : Client C} {conn : Conn Sent} : live.work.unwarned = some (j :: left) →
      live.clients[j]? = some c → live'.clients = live.clients.set j (c.withConn conn) →
      (conn.closed = true ∨ conn.accepted = c.session.conn.accepted ++ [warning]) →
      Broadcasts live live' left

theorem broadcasts_next (stepped : live.runStep u = some live') {j : Nat} {left left' : List Nat}
    (work : live.work = .broadcasting (j :: left)) (after : live'.work.unwarned = some left') :
    Broadcasts live live' left' := by
  have before : live.work.unwarned = some (j :: left) := by rw [work]; rfl
  simp only [State.runStep, work] at stepped
  obtain ⟨c, found, moved⟩ := Option.bind_eq_some_iff.1 stepped
  split at moved
  · next outcome =>
      cases moved
      cases after
      rcases told_broadcast outcome with ⟨-, grown⟩ | ⟨refused, -⟩
      · exact .next before found rfl (.inr grown)
      · cases refused
  · cases moved
    cases after
    exact .same before

theorem broadcasts_bye (stepped : live.runStep u = some live') {j : Nat} {reason : String}
    {rest : Rest} {left : List Nat} (work : live.work = .leaving j reason rest)
    (after : live'.work.unwarned = some left) : Broadcasts live live' left := by
  simp only [State.runStep, work] at stepped
  obtain ⟨c, found, moved⟩ := Option.bind_eq_some_iff.1 stepped
  cases moved
  cases rest with
  | idle | delivering => cases after
  | broadcasting left' =>
      cases after
      exact .next (by rw [work]; rfl) found rfl (.inl (Conn.sendBye_closed _ _))

theorem broadcasts_run (stepped : live.runStep u = some live') {left : List Nat}
    (after : live'.work.unwarned = some left) : Broadcasts live live' left := by
  have error : ∀ (r : Round) key err, (State.afterError r key err).unwarned ≠ some left := by
    intro r key err
    unfold State.afterError
    split <;> simp [Work.unwarned]
  cases runStep_spec stepped with
  | broadcast work _ | unwarned work _ => exact broadcasts_next stepped work after
  | bye work _ => exact broadcasts_bye stepped work after
  | @parted j rest work =>
      cases rest with
      | idle | delivering => cases after
      | broadcasting left' => exact .same (by rw [work]; exact after)
  | silent _ _ _ _ turn =>
      rcases turn with rfl | ⟨err, rfl⟩
      · cases after
      · exact absurd after (error _ _ _)
  | unappended _ => exact absurd after (error _ _ _)
  | notify _ turn | deliver _ turn => rcases turn with rfl | rfl <;> cases after
  | applied | cached | appended | notified | tell | finish | delivered | sent | slow | clear =>
      cases after

theorem broadcasts_step (stepped : Live.step u live e = some live') {left : List Nat}
    (after : live'.work.unwarned = some left) : Broadcasts live live' left := by
  by_cases running : e = .run
  · subst running
    exact broadcasts_run stepped after
  · by_cases recovering : ∃ listed, e = .recover listed
    · obtain ⟨listed, rfl⟩ := recovering
      simp only [Live.step] at stepped
      split at stepped
      · split at stepped
        · next perm =>
            cases stepped
            cases after
            exact .starts perm rfl
        · cases stepped
      · cases stepped
    · cases step_spec stepped with
      | connect | client | store => exact .same after
      | background _ aside =>
          cases aside with
          | buffer _ => exact .same after
          | copy _ _ _ _ _ => cases after
          | sweep _ _ _ => cases after
          | recover event _ => exact absurd ⟨_, event⟩ recovering
          | run event _ => exact absurd event running

end Step

/-! ## The invariant -/

theorem ends_step (live : Live.State C) (ends : Nat → Nat) (e : Live.Ev C) (j : Nat) :
    endsAfter live ends e j = ends j ∨ endsAfter live ends e j = (accepted live j).length := by
  cases e with
  | session i =>
      simp only [endsAfter]
      split
      · next own => exact .inr (by rw [own.1])
      · exact .inl rfl
  | _ => exact .inl rfl

theorem since_step (live : Live.State C) (ends : Nat → Nat) (since : Nat → String → Nat)
    (e : Live.Ev C) (j : Nat) (name : String) :
    (e = .session j ∧ completing live j = some name ∧
        sinceAfter live ends since e j name = ends j) ∨
      ¬ (e = .session j ∧ completing live j = some name) ∧
        sinceAfter live ends since e j name = since j name := by
  cases e with
  | session i =>
      simp only [sinceAfter]
      split
      · next own =>
          obtain ⟨rfl, completes⟩ := own
          exact .inl ⟨rfl, completes, rfl⟩
      · next other =>
          refine .inr ⟨fun both => other ?_, rfl⟩
          obtain ⟨same, completes⟩ := both
          cases same
          exact ⟨rfl, completes⟩
  | _ => exact .inr ⟨(nomatch ·.1), rfl⟩

/-- The places are inside the buffers, and the broadcast has told the sessions it has passed. -/
structure Tracks (s : State C) : Prop where
  ends : ∀ j, s.ends j ≤ (accepted s.live j).length
  since : ∀ j name, s.since j name ≤ (accepted s.live j).length
  told : ∀ left, s.live.work.unwarned = some left → ∀ j c, s.live.clients[j]? = some c →
    c.listed = true → j ∉ left → ∀ name ∈ c.session.shapes, Told s.live j (s.since j name)

theorem mem_listed {live : Live.State C} {j : Nat} {c : Client C}
    (found : live.clients[j]? = some c) (listed : c.listed = true) : j ∈ live.listed := by
  refine List.mem_filter.2 ⟨List.mem_range.2 (List.getElem?_eq_some_iff.1 found).1, ?_⟩
  rw [found, Option.any_some, listed]

theorem told_set {live live' : Live.State C} {j n : Nat} {c : Client C} {conn : Conn Sent}
    (found : live.clients[j]? = some c)
    (after : live'.clients = live.clients.set j (c.withConn conn))
    (told : conn.closed = true ∨ conn.accepted = c.session.conn.accepted ++ [warning])
    (inside : n ≤ (accepted live j).length) : Told live' j n := by
  have here : live'.clients[j]? = some (c.withConn conn) := by
    rw [after, List.getElem?_set_self (List.getElem?_eq_some_iff.1 found).1]
  rcases told with closed | grown
  · left
    rw [here, Option.any_some]
    exact closed
  · right
    rw [accepted_of_found found] at inside
    have buffered : (c.withConn conn).session.conn.accepted =
        c.session.conn.accepted ++ [warning] := grown
    rw [accepted_of_found here, buffered, List.drop_append_of_le_length inside]
    exact List.mem_append_right _ List.mem_cons_self

theorem told_of_settles {j : Nat} {name : String} {left : List Nat}
    (settles : Settles s (.session j) = true) (completes : completing s.live j = some name)
    (work : s.live.work.unwarned = some left) (passed : j ∉ left) :
    Told s.live j (s.ends j) := by
  simpa [Settles, completes, work, passed] using settles

theorem tracks_step {e : Live.Ev C} (tracks : Tracks s) (settles : Settles s e = true)
    (stepped : step u s e = some t) : Tracks t := by
  obtain ⟨live, moved, rfl⟩ := Option.map_eq_some_iff.1 stepped
  have clients := clients_step moved
  have grown := fun j => (accepted_extends clients j).length_le
  refine ⟨fun j => ?_, fun j name => ?_, fun left work j c found listed passed name member => ?_⟩
  · rcases ends_step live s.ends e j with same | here
    · exact same.trans_le ((tracks.ends j).trans (grown j))
    · exact here.le
  · rcases since_step s.live s.ends s.since e j name with ⟨-, -, here⟩ | ⟨-, same⟩
    · exact here.trans_le ((tracks.ends j).trans (grown j))
    · exact same.trans_le ((tracks.since j name).trans (grown j))
  · show Told live j (sinceAfter s.live s.ends s.since e j name)
    -- a session that is told of what it had before
    have old : ∀ {left'}, s.live.work.unwarned = some left' → j ∉ left' →
        Told live j (sinceAfter s.live s.ends s.since e j name) := by
      intro left' before passed
      rcases since_step s.live s.ends s.since e j name with ⟨rfl, completes, here⟩ | ⟨other, same⟩
      · rw [here]
        exact (told_of_settles settles completes before passed).extends clients
      · rw [same]
        rcases member_of_clients clients found listed member with ⟨c', found', listed', old⟩ | new
        · exact (tracks.told left' before j c' found' listed' passed name old).extends clients
        · exact absurd new other
    cases broadcasts_step moved work with
    | same before => exact old before passed
    | starts perm same =>
        rw [same] at found
        exact absurd (perm.mem_iff.2 (mem_listed found listed)) passed
    | @next i c' conn before here after told =>
        by_cases own : j = i
        · subst own
          refine told_set here after told ?_
          rcases since_step s.live s.ends s.since e j name with ⟨-, -, same⟩ | ⟨-, same⟩
          · exact same.trans_le (tracks.ends j)
          · exact same.trans_le (tracks.since j name)
        · exact old before fun later => (List.mem_cons.1 later).elim own passed

/-- **Recovery removes no subscription in silence** when no session completes a subscription
between its `must_resnapshot` and the clearing, except one that was served before. -/
theorem warns_of_settles {es : List (Live.Ev C)}
    (settles : (machine u).Meets (fun s e => Settles s e = true) ({} : State C) es) :
    (machine u).Meets Warns ({} : State C) es := by
  refine settles.imp (I := Tracks) (fun _ _ _ tracks here stepped =>
    tracks_step tracks here stepped) (fun s e _ tracks _ _ => ?_) ?_
  · exact fun _ work j c found listed name member =>
      tracks.told [] (by rw [work]; rfl) j c found listed (by simp) name member
  · exact ⟨fun j => Nat.zero_le _, fun j name => Nat.zero_le _, fun left work => nomatch work⟩

namespace Late

open Live.Tasks

/-- The session subscribes, and a second one has its snapshot when the guard trips. -/
def served : List (Live.Ev Unit) :=
  subscribed ++ [.connect (), .subscribe 1 ["tasks"] none] ++ List.replicate 5 (.session 1) ++
    [.recover [0, 1], .run, .run]

/-- The memberships before and after the next step of `Run`. -/
def removal (es : List (Live.Ev Unit)) :
    Option (List (Finset String) × List (Finset String)) := do
  let s ← (machine setup).run {} es
  let t ← (machine setup).step s .run
  return (s.live.clients.map fun c => c.session.shapes,
    t.live.clients.map fun c => c.session.shapes)

theorem exists_removal {es : List (Live.Ev Unit)} {shapes shapes' : List (Finset String)}
    (removed : removal es = some (shapes, shapes')) :
    ∃ s t, (machine setup).run {} es = some s ∧ (machine setup).step s .run = some t ∧
      s.live.clients.map (fun c => c.session.shapes) = shapes ∧
      t.live.clients.map (fun c => c.session.shapes) = shapes' := by
  obtain ⟨s, ran, rest⟩ := Option.bind_eq_some_iff.1 removed
  obtain ⟨t, stepped, same⟩ := Option.bind_eq_some_iff.1 rest
  cases same
  exact ⟨s, t, ran, stepped, rfl, rfl⟩

/-- Both have their `must_resnapshot`, the second before it completes its subscription. -/
theorem warns_of_settles_served :
    ∃ s t, (machine setup).run {} (served ++ [.session 1]) = some s ∧
      (machine setup).step s .run = some t ∧
      s.live.clients.map (fun c => c.session.shapes) = [{"tasks"}, {"tasks"}] ∧
      t.live.clients.map (fun c => c.session.shapes) = [∅, ∅] ∧ Warns s .run := by
  obtain ⟨s, t, ran, stepped, before, after⟩ := exists_removal
    (show removal (served ++ [.session 1]) = some ([{"tasks"}, {"tasks"}], [∅, ∅]) by
      decide +kernel)
  have all : (machine setup).Meets Warns {} (served ++ [.session 1] ++ [.run]) :=
    warns_of_settles (by decide +kernel)
  exact ⟨s, t, ran, stepped, before, after, (all.split.2 s ran t stepped).1⟩

/-- The session has been passed by the broadcast when it subscribes. -/
def late : List (Live.Ev Unit) :=
  [.connect (), .recover [0], .run, .subscribe 0 ["tasks"] none, .session 0, .session 0,
    .take 0 10 [task 1]] ++ List.replicate 4 (.session 0)

def clears (live : Live.State Unit) : Bool :=
  match live.work with
  | .broadcasting [] => true
  | _ => false

theorem work_of_clears {live : Live.State Unit} (ready : clears live = true) :
    live.work = .broadcasting [] := by
  unfold clears at ready
  split at ready
  · next work => exact work
  · cases ready

/-- Its snapshot comes after the `must_resnapshot`; the clearing takes its subscription away,
and nothing tells it so. -/
theorem subscription_removed_silently :
    ∃ s t, (machine setup).run {} late = some s ∧ (machine setup).step s .run = some t ∧
      s.live.clients.map (fun c => c.session.shapes) = [{"tasks"}] ∧
      t.live.clients.map (fun c => c.session.shapes) = [∅] ∧
      s.live.clients.map (fun c => (c.session.conn.closed, c.session.conn.accepted)) =
        [(false, [warning, ⟨.snapshot "tasks" 10 1 {task 1}, some (streamKey "tasks" "")⟩])] ∧
      ¬ Warns s .run := by
  obtain ⟨s, t, ran, stepped, before, after⟩ := exists_removal
    (show removal late = some ([{"tasks"}], [∅]) by decide +kernel)
  have buffers : ((machine setup).run {} late).map (fun s => s.live.clients.map fun c =>
      (c.session.conn.closed, c.session.conn.accepted)) =
      some [(false,
        [warning, ⟨.snapshot "tasks" 10 1 {task 1}, some (streamKey "tasks" "")⟩])] := by
    decide +kernel
  have untold : ((machine setup).run {} late).map (fun s => (clears s.live,
      s.live.clients.map Client.listed, decide (Told s.live 0 (s.since 0 "tasks")))) =
      some (true, [true], false) := by
    decide +kernel
  rw [ran, Option.map_some, Option.some.injEq] at buffers untold
  simp only [Prod.mk.injEq, decide_eq_false_iff_not] at untold
  obtain ⟨ready, listed, untold⟩ := untold
  refine ⟨s, t, ran, stepped, before, after, buffers, fun warns => untold ?_⟩
  obtain ⟨c, only, shapes⟩ := List.map_eq_singleton_iff.1 before
  rw [only, List.map_singleton, List.singleton_inj] at listed
  exact warns rfl (work_of_clears ready) 0 c (by rw [only]; rfl) listed "tasks"
    (by rw [shapes]; exact Finset.mem_singleton_self _)

end Late

end Tether.Warning
