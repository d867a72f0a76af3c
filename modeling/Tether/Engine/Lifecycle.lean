/-
# Tether.Engine.Lifecycle — connections come and go

Two maps know the connections: `hub.clients` and `e.sessions`.  A goroutine of `serveWS`
puts its connection into both, and takes it out of both when it returns; the sweep takes
idle ones out in its place, while the goroutine goes on until its next read fails.  Each
does so in steps between which the other may run.  The sweep looks at the sessions one by
one with `e.mu` in its hands, so nobody registers or deregisters meanwhile, but a session
may still read a message and be touched.

`nothing_leaks` says what the maps hold at any time: exactly the connections whose goroutine
has put them there and not yet taken them out, without those that the sweep has taken out.
It rests on the ids: `nextID` is never set back, so an id that is deleted late, by the sweep
after the goroutine or the other way round, is nobody else's.
-/
import Tether.Engine.Live
import Tether.Lib.Roster

namespace Tether.Lifecycle

open Lib Transport
open Live (reasonIdleClient)

set_option autoImplicit false

/-- The options that matter here; times and durations in nanoseconds. -/
structure Setup where
  clientBuffer : Int := 64
  maxClientIdle : Int := 0

/-- Where a goroutine of `serveWS` is. -/
inductive Phase where
  /-- `Hub.Add` has drawn the id. -/
  | numbered
  | added
  /-- The session is there, with the current time. -/
  | created
  /-- In `e.sessions`, reading messages. -/
  | serving
  /-- `ReadMessage` has failed; the deferred calls follow. -/
  | ended
  /-- No longer in `e.sessions`. -/
  | deleted
  | closed
  | returned
  deriving DecidableEq

/-- How far the sweep has got with a session it found idle; `cutoff` and `lastActive` are
what it compared. -/
structure Sweep where
  cutoff : Int
  lastActive : Int
  disconnected : Bool := false
  removed : Bool := false

/-- `swept` is a ghost. -/
structure Client (μ : Type) where
  id : String
  conn : Conn μ
  lastActive : Int := 0
  phase : Phase := .numbered
  swept : Option Sweep := none

/-- Where `sweepIdleClients` is. -/
inductive Work where
  | idle
  | waiting (cutoff : Int)
  /-- With `e.mu` in hand; `left` is still to be looked at. -/
  | scanning (cutoff : Int) (left : List String) (found : List Nat)
  | disconnecting (left : List Nat)
  | removing (k : Nat) (left : List Nat)

structure State (μ : Type) where
  nextID : UInt64 := 0
  hub : KeyMap String Nat := ∅
  sessions : KeyMap String Nat := ∅
  clients : List (Client μ) := []
  work : Work := .idle
  now : Int := 0

inductive Ev (μ : Type) where
  | tick (elapsed : Nat)
  /-- `Hub.Add` draws an id. -/
  | accept
  /-- The next step of the goroutine of client `k`, apart from reading. -/
  | serve (k : Nat)
  | read (k : Nat)
  | readFails (k : Nat)
  /-- A message that is dropped if the client cannot take it. -/
  | send (k : Nat) (m : μ)
  /-- A message for which the client is disconnected if it cannot take it. -/
  | deliver (k : Nat) (m : μ)
  | pump (k : Nat)
  | sweep
  /-- The sweep locks `e.mu` and finds the sessions in some order. -/
  | scan (order : List String)
  | sweepNext

section Steps

variable {μ : Type} (u : Setup)

/-- `fmt.Sprintf("c%d", h.nextID.Add(1))`. -/
def clientID (n : UInt64) : String := "c" ++ (n.toNat : Int).repr

namespace State

variable (s : State μ)

def setClient (k : Nat) (c : Client μ) : State μ := { s with clients := s.clients.set k c }

def locked : Bool :=
  match s.work with
  | .scanning _ _ _ => true
  | _ => false

/-- `Hub.Add` up to the map. -/
def accept : State μ :=
  { s with
    nextID := s.nextID + 1
    clients := s.clients ++ [{ id := clientID (s.nextID + 1), conn := .new u.clientBuffer }] }

/-- `serveWS` outside of its loop. -/
def serve (k : Nat) : Option (State μ) := do
  let c ← s.clients[k]?
  match c.phase with
  | .numbered =>
      some { s.setClient k { c with phase := .added } with hub := s.hub.insert c.id k }
  | .added => some (s.setClient k { c with phase := .created, lastActive := s.now })
  | .created =>
      if s.locked then none
      else
        some { s.setClient k { c with phase := .serving } with
          sessions := s.sessions.insert c.id k }
  | .serving => none
  | .ended =>
      if s.locked then none
      else
        some { s.setClient k { c with phase := .deleted } with
          sessions := s.sessions.erase c.id }
  | .deleted => some (s.setClient k { c with phase := .closed, conn := c.conn.close })
  | .closed => some { s.setClient k { c with phase := .returned } with hub := s.hub.erase c.id }
  | .returned => none

/-- The next step of `sweepIdleClients`. -/
def sweepNext : Option (State μ) :=
  match s.work with
  | .idle | .waiting _ => none
  | .scanning _ [] found => some { s with work := .disconnecting found }
  | .scanning cutoff (id :: left) found => do
      let k ← s.sessions.lookup id
      let c ← s.clients[k]?
      if c.lastActive < cutoff then
        some { s.setClient k { c with swept := some ⟨cutoff, c.lastActive, false, false⟩ } with
          sessions := s.sessions.erase id
          work := .scanning cutoff left (found ++ [k]) }
      else some { s with work := .scanning cutoff left found }
  | .disconnecting [] => some { s with work := .idle }
  | .disconnecting (k :: left) => do
      let c ← s.clients[k]?
      some { s.setClient k { c with
          conn := c.conn.sendBye reasonIdleClient
          swept := c.swept.map fun w => { w with disconnected := true } } with
        work := .removing k left }
  | .removing k left => do
      let c ← s.clients[k]?
      some { s.setClient k { c with
          swept := c.swept.map fun w => { w with removed := true } } with
        hub := s.hub.erase c.id
        work := .disconnecting left }

/-- `reportClientCount`. -/
def clientCount : Nat := s.sessions.keys.card

end State

def step (s : State μ) : Ev μ → Option (State μ)
  | .tick elapsed => some { s with now := s.now + elapsed }
  | .accept => some (s.accept u)
  | .serve k => s.serve k
  | .read k => do
      let c ← s.clients[k]?
      if c.phase = .serving then some (s.setClient k { c with lastActive := s.now }) else none
  | .readFails k => do
      let c ← s.clients[k]?
      if c.phase = .serving then some (s.setClient k { c with phase := .ended }) else none
  | .send k m => do
      let c ← s.clients[k]?
      some (s.setClient k { c with conn := (c.conn.enqueue m).1 })
  | .deliver k m => do
      let c ← s.clients[k]?
      match c.conn.enqueue m with
      | (conn, true) => some (s.setClient k { c with conn := conn })
      | (conn, false) => some (s.setClient k { c with conn := conn.sendBye reasonSlowClient })
  | .pump k => do
      let c ← s.clients[k]?
      let conn ← c.conn.pump
      some (s.setClient k { c with conn := conn })
  | .sweep =>
      match s.work with
      | .idle =>
          if u.maxClientIdle ≤ 0 then none
          else some { s with work := .waiting (s.now - u.maxClientIdle) }
      | _ => none
  | .scan order =>
      match s.work with
      | .waiting cutoff =>
          if order.Nodup ∧ order.toFinset = s.sessions.keys then
            some { s with work := .scanning cutoff order [] }
          else none
      | _ => none
  | .sweepNext => s.sweepNext

def machine : Machine (State μ) (Ev μ) := ⟨(· = {}), step u⟩

end Steps

/-! ## Who is in the maps -/

variable {μ : Type} {u : Setup} {s t : State μ} {k : Nat} {c c' : Client μ}

/-- Registered and neither deregistered nor swept. -/
def Client.inSessions (c : Client μ) : Bool :=
  (c.phase = .serving || c.phase = .ended) && c.swept.isNone

def Client.inHub (c : Client μ) : Bool :=
  !(c.phase = .numbered || c.phase = .returned) && !c.swept.any Sweep.removed

/-- What the sweep has still to disconnect or to remove from the hub. -/
def Work.pending : Work → List Nat
  | .idle | .waiting _ => []
  | .scanning _ _ found => found
  | .disconnecting left => left
  | .removing k left => k :: left

def Work.cutoff : Work → Option Int
  | .waiting cutoff | .scanning cutoff _ _ => some cutoff
  | _ => none

/-- What is left to look at is still in `e.sessions`. -/
def Work.Scans (sessions : KeyMap String Nat) : Work → Prop
  | .scanning _ left _ => left.Nodup ∧ ∀ id ∈ left, ∃ k, sessions.lookup id = some k
  | _ => True

/-- Not yet in `e.sessions`. -/
def Phase.early : Phase → Bool
  | .numbered | .added | .created => true
  | _ => false

/-- What is known of a client at a time, `pending` or not. -/
structure Client.Good (u : Setup) (now : Int) (pending : Prop) (c : Client μ) : Prop where
  closed : c.phase = .closed ∨ c.phase = .returned → c.conn.closed = true
  started : c.swept.isSome → c.phase.early = false
  idle : ∀ w ∈ c.swept, w.lastActive < w.cutoff ∧ w.cutoff + u.maxClientIdle ≤ now
  told : ∀ w ∈ c.swept, w.disconnected = true → c.conn.closed = true
  removed : ∀ w ∈ c.swept, w.removed = true → w.disconnected = true
  pending : pending ↔ ∃ w ∈ c.swept, w.removed = false

structure Inv (u : Setup) (s : State μ) : Prop where
  count : s.nextID = UInt64.ofNat s.clients.length
  ids : ∀ k c, s.clients[k]? = some c → c.id = clientID (UInt64.ofNat (k + 1))
  sessions : Lists Client.id Client.inSessions s.clients s.sessions
  hub : Lists Client.id Client.inHub s.clients s.hub
  good : ∀ k (c : Client μ), s.clients[k]? = some c → c.Good u s.now (k ∈ s.work.pending)
  present : ∀ k ∈ s.work.pending, k < s.clients.length
  nodup : s.work.pending.Nodup
  removing : ∀ k left (c : Client μ), s.work = .removing k left → s.clients[k]? = some c →
    ∀ w ∈ c.swept, w.disconnected = true
  cutoff : ∀ cutoff ∈ s.work.cutoff, cutoff + u.maxClientIdle ≤ s.now
  scanning : s.work.Scans s.sessions

theorem clientID_inj {n m : UInt64} (same : clientID n = clientID m) : n = m := by
  have texts : (n.toNat : Int).repr = (m.toNat : Int).repr := by
    have lists := congrArg String.toList same
    simp only [clientID, String.toList_append] at lists
    exact String.toList_inj.1 (List.append_cancel_left lists)
  exact UInt64.toNat_inj.1 (Int.ofNat.inj (Float64.intRepr_inj texts))

/-- Ids are distinct until the counter wraps around. -/
theorem Inv.distinct (inv : Inv u s) (few : s.clients.length < 2 ^ 64) :
    (s.clients.map Client.id).Nodup := by
  have ids : s.clients.map Client.id =
      (List.range s.clients.length).map fun k => clientID (UInt64.ofNat (k + 1)) := by
    refine List.ext_getElem? fun k => ?_
    rw [List.getElem?_map, List.getElem?_map]
    cases found : s.clients[k]? with
    | none =>
        rw [List.getElem?_eq_none (by simpa using List.getElem?_eq_none_iff.1 found)]
        rfl
    | some c =>
        rw [List.getElem?_range (List.getElem?_eq_some_iff.1 found).1]
        exact congrArg some (inv.ids k c found)
  rw [ids]
  refine List.nodup_range.map_on fun k inside k' inside' same => ?_
  have numbers := congrArg UInt64.toNat (clientID_inj same)
  rw [List.mem_range] at inside inside'
  rw [UInt64.toNat_ofNat', UInt64.toNat_ofNat'] at numbers
  omega

/-! ## Steps -/

/-- A client is replaced, with what that does to the maps and to the sweep. -/
theorem Inv.put (inv : Inv u s) (found : s.clients[k]? = some c) (c' : Client μ)
    (id : c'.id = c.id) {sessions hub : KeyMap String Nat} {work : Work}
    (listed : Lists Client.id Client.inSessions (s.clients.set k c') sessions)
    (known : Lists Client.id Client.inHub (s.clients.set k c') hub)
    (own : c'.Good u s.now (k ∈ work.pending))
    (others : ∀ j, j ≠ k → (j ∈ work.pending ↔ j ∈ s.work.pending)) (nodup : work.pending.Nodup)
    (removing : ∀ j left (d : Client μ), work = .removing j left →
      (s.clients.set k c')[j]? = some d → ∀ w ∈ d.swept, w.disconnected = true)
    (cutoff : ∀ cutoff ∈ work.cutoff, cutoff ∈ s.work.cutoff) (scanning : work.Scans sessions) :
    Inv u { s.setClient k c' with sessions := sessions, hub := hub, work := work } where
  count := by simpa [State.setClient] using inv.count
  ids := by
    intro j d here
    rcases getElem?_set_cases here with ⟨rfl, rfl⟩ | ⟨-, old⟩
    · exact id.trans (inv.ids j c found)
    · exact inv.ids j d old
  sessions := listed
  hub := known
  good := by
    intro j d here
    rcases getElem?_set_cases here with ⟨rfl, rfl⟩ | ⟨ne, old⟩
    · exact own
    · have before := inv.good j d old
      exact { before with pending := (others j ne).trans before.pending }
  present := by
    intro j pending
    simp only [State.setClient, List.length_set]
    by_cases same : j = k
    · rw [same]
      exact (List.getElem?_eq_some_iff.1 found).1
    · exact inv.present j ((others j same).1 pending)
  nodup := nodup
  removing := removing
  cutoff := fun limit here => inv.cutoff limit (cutoff limit here)
  scanning := scanning

/-- The sweep is not concerned. -/
theorem Inv.keep (inv : Inv u s) (found : s.clients[k]? = some c) (c' : Client μ)
    (id : c'.id = c.id) (swept : c'.swept = c.swept)
    (closes : c.conn.closed = true → c'.conn.closed = true)
    (closed : c'.phase = .closed ∨ c'.phase = .returned → c'.conn.closed = true)
    (started : c.phase.early = false → c'.phase.early = false)
    {sessions hub : KeyMap String Nat}
    (listed : Lists Client.id Client.inSessions (s.clients.set k c') sessions)
    (known : Lists Client.id Client.inHub (s.clients.set k c') hub)
    (scanning : s.work.Scans sessions) :
    Inv u { s.setClient k c' with sessions := sessions, hub := hub } := by
  have good := inv.good k c found
  refine inv.put found c' id listed known ?_ (fun _ _ => Iff.rfl) inv.nodup ?_
    (fun _ here => here) scanning
  · refine ⟨closed, ?_, ?_, ?_, ?_, ?_⟩
    · exact fun taken => started (good.started (swept ▸ taken))
    · exact fun w here => good.idle w (swept ▸ here)
    · exact fun w here told => closes (good.told w (swept ▸ here) told)
    · exact fun w here => good.removed w (swept ▸ here)
    · rw [swept]
      exact good.pending
  · intro j left d work here w taken
    rcases getElem?_set_cases here with ⟨rfl, rfl⟩ | ⟨-, old⟩
    · exact inv.removing j left c work found w (swept ▸ taken)
    · exact inv.removing j left d work old w taken

/-- Nor are the maps. -/
theorem Inv.same (inv : Inv u s) (found : s.clients[k]? = some c) (c' : Client μ)
    (id : c'.id = c.id) (swept : c'.swept = c.swept)
    (closes : c.conn.closed = true → c'.conn.closed = true)
    (closed : c'.phase = .closed ∨ c'.phase = .returned → c'.conn.closed = true)
    (started : c.phase.early = false → c'.phase.early = false)
    (listed : c'.inSessions = c.inSessions) (known : c'.inHub = c.inHub) :
    Inv u (s.setClient k c') :=
  inv.keep found c' id swept closes closed started (inv.sessions.update found id listed)
    (inv.hub.update found id known) inv.scanning

/-- Only the connection changes. -/
theorem Inv.withConn (inv : Inv u s) (found : s.clients[k]? = some c) {conn : Conn μ}
    (closes : c.conn.closed = true → conn.closed = true) :
    Inv u (s.setClient k { c with conn := conn }) :=
  inv.same found _ rfl rfl closes (fun done => closes ((inv.good k c found).closed done)) id rfl rfl

/-- Only the sweep moves on. -/
theorem Inv.works (inv : Inv u s) {work : Work} (same : work.pending = s.work.pending)
    (next : ∀ k left, work ≠ .removing k left)
    (cutoff : ∀ cutoff ∈ work.cutoff, cutoff + u.maxClientIdle ≤ s.now)
    (scanning : work.Scans s.sessions) : Inv u { s with work := work } :=
  { inv with
    good := fun k c found => by
      show c.Good u s.now (k ∈ work.pending)
      rw [same]
      exact inv.good k c found
    present := fun k pending => inv.present k (same ▸ pending)
    nodup := same ▸ inv.nodup
    removing := fun k left _ here => absurd here (next k left)
    cutoff := cutoff
    scanning := scanning }

theorem Client.Good.later {now now' : Int} {pending : Prop} (good : c.Good u now pending)
    (le : now ≤ now') : c.Good u now' pending :=
  { good with idle := fun w here => ⟨(good.idle w here).1, (good.idle w here).2.trans le⟩ }

theorem inv_tick (inv : Inv u s) (elapsed : Nat) :
    Inv u { s with now := s.now + elapsed } := by
  have le : s.now ≤ s.now + elapsed := by omega
  exact { inv with
    good := fun k c found => (inv.good k c found).later le
    cutoff := fun cutoff here => (inv.cutoff cutoff here).trans le }

theorem inv_accept (inv : Inv u s) : Inv u (s.accept u) where
  count := by
    simp only [State.accept, inv.count, List.length_append, List.length_singleton]
    rw [UInt64.ofNat_add]
    rfl
  ids := by
    intro k c found
    simp only [State.accept] at found
    rw [List.getElem?_append] at found
    split at found
    · exact inv.ids k c found
    · next outside =>
        have inside := (List.getElem?_eq_some_iff.1 found).1
        rw [List.length_singleton] at inside
        have last : k = s.clients.length := by omega
        subst last
        rw [Nat.sub_self] at found
        cases found
        rw [inv.count, UInt64.ofNat_add]
        rfl
  sessions := inv.sessions.concat rfl
  hub := inv.hub.concat rfl
  good := by
    intro k c found
    rcases getElem?_concat_cases found with old | rfl
    · exact inv.good k c old
    · refine ⟨by simp, by simp, by simp, by simp, by simp,
        iff_of_false (fun pending => ?_) (by simp)⟩
      have inside := inv.present k pending
      obtain ⟨w, taken, -⟩ := (inv.good k _ (List.getElem?_eq_getElem inside)).pending.1 pending
      simp only [State.accept] at found
      rw [List.getElem?_append_left inside, List.getElem?_eq_getElem inside] at found
      rw [Option.some.inj found] at taken
      cases taken
  present := fun k pending => (inv.present k pending).trans_le (by simp [State.accept])
  nodup := inv.nodup
  removing := by
    intro k left c work found w taken
    rcases getElem?_concat_cases found with old | rfl
    · exact inv.removing k left c work old w taken
    · cases taken
  cutoff := inv.cutoff
  scanning := inv.scanning

/-- Nobody registers or deregisters while the sweep holds `e.mu`. -/
theorem scans_of_unlocked (free : ¬ s.locked) (sessions : KeyMap String Nat) :
    s.work.Scans sessions := by
  cases work : s.work with
  | scanning cutoff left found => simp [State.locked, work] at free
  | _ => trivial

theorem Client.Good.unswept {now : Int} {pending : Prop} (good : c.Good u now pending)
    (early : c.phase.early = true) : c.swept = none := by
  cases taken : c.swept with
  | none => rfl
  | some w =>
      have late := good.started (by simp [taken])
      rw [early] at late
      cases late

theorem inv_serve (inv : Inv u s) (few : s.clients.length < 2 ^ 64)
    (stepped : s.serve k = some t) : Inv u t := by
  obtain ⟨c, found, moved⟩ := Option.bind_eq_some_iff.1 stepped
  have distinct := inv.distinct few
  have good := inv.good k c found
  split at moved
  · next phase =>
      cases moved
      have unswept := good.unswept (by rw [phase]; rfl)
      refine inv.keep found { c with phase := .added } rfl rfl id (by simp)
        (by simp [phase, Phase.early]) ?_ ?_ inv.scanning
      · exact inv.sessions.update found rfl (by simp [Client.inSessions, phase])
      · exact inv.hub.insert distinct found rfl (by simp [Client.inHub, unswept])
  · next phase =>
      cases moved
      refine inv.same found { c with phase := .created, lastActive := s.now } rfl rfl id (by simp)
        (by simp [phase, Phase.early]) ?_ ?_
      · simp [Client.inSessions, phase]
      · simp [Client.inHub, phase]
  · next phase =>
      split at moved
      · cases moved
      · next free =>
          cases moved
          have unswept := good.unswept (by rw [phase]; rfl)
          refine inv.keep found { c with phase := .serving } rfl rfl id (by simp) (fun _ => rfl)
            ?_ ?_ (scans_of_unlocked free _)
          · exact inv.sessions.insert distinct found rfl (by simp [Client.inSessions, unswept])
          · exact inv.hub.update found rfl (by simp [Client.inHub, phase])
  · cases moved
  · next phase =>
      split at moved
      · cases moved
      · next free =>
          cases moved
          refine inv.keep found { c with phase := .deleted } rfl rfl id (by simp) (fun _ => rfl)
            ?_ ?_ (scans_of_unlocked free _)
          · exact inv.sessions.erase distinct found rfl (by simp [Client.inSessions])
          · exact inv.hub.update found rfl (by simp [Client.inHub, phase])
  · next phase =>
      cases moved
      refine inv.same found { c with phase := .closed, conn := c.conn.close } rfl rfl
        (fun _ => rfl) (fun _ => rfl) (fun _ => rfl) ?_ ?_
      · simp [Client.inSessions, phase]
      · simp [Client.inHub, phase]
  · next phase =>
      cases moved
      refine inv.keep found { c with phase := .returned } rfl rfl id
        (fun _ => good.closed (.inl phase)) (fun _ => rfl) ?_ ?_ inv.scanning
      · exact inv.sessions.update found rfl (by simp [Client.inSessions, phase])
      · exact inv.hub.erase distinct found rfl (by simp [Client.inHub])
  · cases moved

/-! ### The sweep -/

/-- A session found idle is taken out of `e.sessions`. -/
theorem inv_scan (inv : Inv u s) (few : s.clients.length < 2 ^ 64) {cutoff : Int} {id : String}
    {left : List String} {found : List Nat} (work : s.work = .scanning cutoff (id :: left) found)
    (held : s.sessions.lookup id = some k) (here : s.clients[k]? = some c)
    (idle : c.lastActive < cutoff) :
    Inv u { s.setClient k { c with swept := some ⟨cutoff, c.lastActive, false, false⟩ } with
      sessions := s.sessions.erase id
      work := .scanning cutoff left (found ++ [k]) } := by
  obtain ⟨c₁, here₁, named, within⟩ := (inv.sessions id k).1 held
  cases here.symm.trans here₁
  subst named
  obtain ⟨phase, unswept⟩ : (c.phase = .serving ∨ c.phase = .ended) ∧ c.swept = none := by
    simpa [Client.inSessions] using within
  have good := inv.good k c here
  have fresh : k ∉ found := by
    intro again
    have pending : k ∈ s.work.pending := by
      rw [work]
      exact again
    obtain ⟨w, taken, -⟩ := good.pending.1 pending
    rw [unswept] at taken
    cases taken
  have limit := inv.cutoff cutoff (by rw [work]; rfl)
  have nodup : found.Nodup := by
    have before := inv.nodup
    rwa [work] at before
  refine inv.put here { c with swept := some ⟨cutoff, c.lastActive, false, false⟩ } rfl
    (inv.sessions.erase (inv.distinct few) here rfl ?_) (inv.hub.update here rfl ?_) ?_ ?_ ?_ ?_
    ?_ ?_
  · simp [Client.inSessions]
  · simp [Client.inHub, unswept]
  · refine ⟨good.closed, ?_, ?_, by simp, by simp, iff_of_true (by simp [Work.pending]) (by simp)⟩
    · rintro -
      rcases phase with phase | phase <;> simp [phase, Phase.early]
    · rintro w ⟨⟩
      exact ⟨idle, limit⟩
  · intro j ne
    simp [work, Work.pending, ne]
  · exact List.nodup_append.2 ⟨nodup, List.nodup_singleton k, by
      rintro j member _ single rfl
      exact fresh (List.mem_singleton.1 single ▸ member)⟩
  · intro j left' d removing
    cases removing
  · rw [work]
    exact fun _ same => same
  · have before := inv.scanning
    rw [work] at before
    obtain ⟨fresh, later⟩ := List.nodup_cons.1 before.1
    refine ⟨later, fun id' member => ?_⟩
    obtain ⟨j, there⟩ := before.2 id' (List.mem_cons_of_mem _ member)
    have other : id' ≠ c.id := fun same => fresh (same ▸ member)
    exact ⟨j, by rw [KeyMap.lookup_erase_eq, if_neg other, there]⟩

theorem inv_disconnect (inv : Inv u s) {left : List Nat}
    (work : s.work = .disconnecting (k :: left)) (here : s.clients[k]? = some c) :
    Inv u { s.setClient k { c with
        conn := c.conn.sendBye reasonIdleClient
        swept := c.swept.map fun w => { w with disconnected := true } } with
      work := .removing k left } := by
  have good := inv.good k c here
  have pending : (Work.removing k left).pending = s.work.pending := by rw [work]; rfl
  refine inv.put here { c with
      conn := c.conn.sendBye reasonIdleClient
      swept := c.swept.map fun w => { w with disconnected := true } } rfl
    (inv.sessions.update here rfl ?_) (inv.hub.update here rfl ?_) ?_ ?_ ?_ ?_ ?_ ?_
  · simp [Client.inSessions]
  · cases taken : c.swept <;> simp [Client.inHub, taken]
  · refine ⟨fun _ => c.conn.sendBye_closed _, ?_, ?_, fun _ _ _ => c.conn.sendBye_closed _, ?_, ?_⟩
    · simpa using good.started
    · intro w taken
      obtain ⟨w', taken', rfl⟩ := Option.map_eq_some_iff.1 taken
      exact good.idle w' taken'
    · intro w taken _
      obtain ⟨w', -, rfl⟩ := Option.map_eq_some_iff.1 taken
      rfl
    · rw [pending, good.pending]
      simp
  · rw [pending]
    exact fun _ _ => Iff.rfl
  · rw [pending]
    exact inv.nodup
  · rintro j left' d ⟨⟩ found w taken
    rcases getElem?_set_cases found with ⟨-, rfl⟩ | ⟨ne, -⟩
    · obtain ⟨w', -, rfl⟩ := Option.map_eq_some_iff.1 taken
      rfl
    · exact absurd rfl ne
  · rintro _ ⟨⟩
  · trivial

theorem inv_remove (inv : Inv u s) (few : s.clients.length < 2 ^ 64) {left : List Nat}
    (work : s.work = .removing k left) (here : s.clients[k]? = some c) :
    Inv u { s.setClient k { c with
        swept := c.swept.map fun w => { w with removed := true } } with
      hub := s.hub.erase c.id
      work := .disconnecting left } := by
  have good := inv.good k c here
  have nodup : (k :: left).Nodup := by
    have before := inv.nodup
    rwa [work] at before
  obtain ⟨w, taken, -⟩ := good.pending.1 (by rw [work]; exact List.mem_cons_self)
  have told := inv.removing k left c work here w taken
  refine inv.put here { c with swept := c.swept.map fun w => { w with removed := true } } rfl
    (inv.sessions.update here rfl ?_) (inv.hub.erase (inv.distinct few) here rfl ?_) ?_ ?_ ?_ ?_ ?_
    trivial
  · simp [Client.inSessions]
  · simp [Client.inHub, show c.swept = some w from taken]
  · rw [show c.swept = some w from taken]
    refine ⟨good.closed, fun _ => good.started (by simp [show c.swept = some w from taken]), ?_, ?_,
      ?_, iff_of_false (List.nodup_cons.1 nodup).1 (by simp)⟩
    · rintro _ ⟨⟩
      exact good.idle w taken
    · rintro _ ⟨⟩ _
      exact good.told w taken told
    · rintro _ ⟨⟩ _
      exact told
  · intro j ne
    rw [work]
    simp [Work.pending, ne]
  · exact (List.nodup_cons.1 nodup).2
  · intro j left' d removing
    cases removing
  · rintro _ ⟨⟩

theorem inv_sweepNext (inv : Inv u s) (few : s.clients.length < 2 ^ 64)
    (stepped : s.sweepNext = some t) : Inv u t := by
  cases work : s.work with
  | idle | waiting => simp [State.sweepNext, work] at stepped
  | scanning cutoff left found =>
      have limit := inv.cutoff cutoff (by rw [work]; rfl)
      cases left with
      | nil =>
          simp only [State.sweepNext, work, Option.some.injEq] at stepped
          subst stepped
          exact inv.works (by rw [work]; rfl) (by simp) (by simp [Work.cutoff]) trivial
      | cons id left =>
          simp only [State.sweepNext, work] at stepped
          obtain ⟨k, held, moved⟩ := Option.bind_eq_some_iff.1 stepped
          obtain ⟨c, here, moved⟩ := Option.bind_eq_some_iff.1 moved
          split at moved
          · next idle =>
              cases moved
              exact inv_scan inv few work held here idle
          · cases moved
            refine inv.works (by rw [work]; rfl) (by simp) ?_ ?_
            · rintro _ ⟨⟩
              exact limit
            · have before := inv.scanning
              rw [work] at before
              exact ⟨(List.nodup_cons.1 before.1).2,
                fun id member => before.2 id (List.mem_cons_of_mem _ member)⟩
  | disconnecting left =>
      cases left with
      | nil =>
          simp only [State.sweepNext, work, Option.some.injEq] at stepped
          subst stepped
          exact inv.works (by rw [work]; rfl) (by simp) (by simp [Work.cutoff]) trivial
      | cons k left =>
          simp only [State.sweepNext, work] at stepped
          obtain ⟨c, here, moved⟩ := Option.bind_eq_some_iff.1 stepped
          cases moved
          exact inv_disconnect inv work here
  | removing k left =>
      simp only [State.sweepNext, work] at stepped
      obtain ⟨c, here, moved⟩ := Option.bind_eq_some_iff.1 stepped
      cases moved
      exact inv_remove inv few work here

theorem inv_step {e : Ev μ} (inv : Inv u s) (few : s.clients.length < 2 ^ 64)
    (stepped : step u s e = some t) : Inv u t := by
  cases e with
  | tick elapsed =>
      cases stepped
      exact inv_tick inv elapsed
  | accept =>
      cases stepped
      exact inv_accept inv
  | serve k => exact inv_serve inv few stepped
  | read k =>
      obtain ⟨c, found, moved⟩ := Option.bind_eq_some_iff.1 stepped
      split at moved
      · cases moved
        exact inv.same found _ rfl rfl id (inv.good k c found).closed id rfl rfl
      · cases moved
  | readFails k =>
      obtain ⟨c, found, moved⟩ := Option.bind_eq_some_iff.1 stepped
      split at moved
      · next serving =>
          cases moved
          refine inv.same found { c with phase := .ended } rfl rfl id (by simp) (fun _ => rfl) ?_ ?_
          · simp [Client.inSessions, serving]
          · simp [Client.inHub, serving]
      · cases moved
  | send k m =>
      obtain ⟨c, found, moved⟩ := Option.bind_eq_some_iff.1 stepped
      cases moved
      exact inv.withConn found (Conn.extends_enqueue c.conn m).closed
  | deliver k m =>
      obtain ⟨c, found, moved⟩ := Option.bind_eq_some_iff.1 stepped
      split at moved
      · next sent =>
          cases moved
          have extends_ := Conn.extends_enqueue c.conn m
          rw [sent] at extends_
          exact inv.withConn found extends_.closed
      · cases moved
        exact inv.withConn found fun _ => Conn.sendBye_closed _ _
  | pump k =>
      obtain ⟨c, found, moved⟩ := Option.bind_eq_some_iff.1 stepped
      obtain ⟨conn, pumped, same⟩ := Option.bind_eq_some_iff.1 moved
      cases same
      exact inv.withConn found (Conn.extends_pump pumped).closed
  | sweep =>
      simp only [step] at stepped
      split at stepped
      · next idle =>
          split at stepped
          · cases stepped
          · cases stepped
            refine inv.works (by rw [idle]; rfl) (by simp) ?_ trivial
            rintro _ ⟨⟩
            omega
      · cases stepped
  | scan order =>
      simp only [step] at stepped
      split at stepped
      · next cutoff waiting =>
          split at stepped
          · next orders =>
              cases stepped
              refine inv.works (by rw [waiting]; rfl) (by simp) ?_ ⟨orders.1, fun id member => ?_⟩
              · rintro _ ⟨⟩
                exact inv.cutoff cutoff (by rw [waiting]; rfl)
              · have held : id ∈ s.sessions.keys := by
                  rw [← orders.2]
                  exact List.mem_toFinset.2 member
                exact Option.isSome_iff_exists.1 (Finmap.lookup_isSome.2 (Finmap.mem_keys.1 held))
          · cases stepped
      · cases stepped
  | sweepNext => exact inv_sweepNext inv few stepped

/-- Nobody is forgotten. -/
theorem length_step {e : Ev μ} (stepped : step u s e = some t) :
    s.clients.length ≤ t.clients.length := by
  have put : ∀ k (c : Client μ), s.clients.length ≤ (s.setClient k c).clients.length := fun k c =>
    (List.length_set).ge
  cases e with
  | tick elapsed =>
      cases stepped
      exact Nat.le_refl _
  | accept =>
      cases stepped
      simp [State.accept]
  | serve k =>
      obtain ⟨c, -, moved⟩ := Option.bind_eq_some_iff.1 stepped
      repeat' split at moved
      all_goals cases moved <;> exact put _ _
  | read k | readFails k | deliver k m =>
      obtain ⟨c, -, moved⟩ := Option.bind_eq_some_iff.1 stepped
      split at moved <;> cases moved <;> exact put _ _
  | send k m =>
      obtain ⟨c, -, moved⟩ := Option.bind_eq_some_iff.1 stepped
      cases moved
      exact put _ _
  | pump k =>
      obtain ⟨c, -, moved⟩ := Option.bind_eq_some_iff.1 stepped
      obtain ⟨conn, -, same⟩ := Option.bind_eq_some_iff.1 moved
      cases same
      exact put _ _
  | sweep | scan order =>
      simp only [step] at stepped
      repeat' split at stepped
      all_goals cases stepped <;> exact Nat.le_refl _
  | sweepNext =>
      simp only [step, State.sweepNext] at stepped
      split at stepped
      · cases stepped
      · cases stepped
      · cases stepped
        exact Nat.le_refl _
      · obtain ⟨k, -, moved⟩ := Option.bind_eq_some_iff.1 stepped
        obtain ⟨c, -, moved⟩ := Option.bind_eq_some_iff.1 moved
        split at moved <;> cases moved
        · exact put _ _
        · exact Nat.le_refl _
      · cases stepped
        exact Nat.le_refl _
      all_goals
        obtain ⟨c, -, moved⟩ := Option.bind_eq_some_iff.1 stepped
        cases moved
        exact put _ _

theorem inv_of_reachable (reached : (machine u).Reachable s) (few : s.clients.length < 2 ^ 64) :
    Inv u s := by
  induction reached with
  | init initial =>
      cases initial
      exact ⟨rfl, by simp, .empty, .empty, by simp, by simp [Work.pending], .nil, by simp,
        by simp [Work.cutoff], trivial⟩
  | step _ stepped ih =>
      have before := (length_step stepped).trans_lt few
      exact inv_step (ih before) before stepped

/-- The sweep never gets stuck. -/
theorem Inv.sweeps (inv : Inv u s) :
    (s.work = .idle ∨ ∃ cutoff, s.work = .waiting cutoff) ∨ s.sweepNext.isSome := by
  have client : ∀ k ∈ s.work.pending, ∃ c, s.clients[k]? = some c := fun k pending =>
    ⟨_, List.getElem?_eq_getElem (inv.present k pending)⟩
  cases work : s.work with
  | idle => exact .inl (.inl rfl)
  | waiting cutoff => exact .inl (.inr ⟨cutoff, rfl⟩)
  | scanning cutoff left found =>
      right
      cases left with
      | nil => simp [State.sweepNext, work]
      | cons id left =>
          have before := inv.scanning
          rw [work] at before
          obtain ⟨k, held⟩ := before.2 id List.mem_cons_self
          obtain ⟨c, here, -⟩ := (inv.sessions id k).1 held
          simp only [State.sweepNext, work, held, here, Option.bind_eq_bind, Option.bind_some]
          split <;> rfl
  | disconnecting left =>
      right
      cases left with
      | nil => simp [State.sweepNext, work]
      | cons k left =>
          obtain ⟨c, here⟩ := client k (by rw [work]; exact List.mem_cons_self)
          simp [State.sweepNext, work, here]
  | removing k left =>
      obtain ⟨c, here⟩ := client k (by rw [work]; exact List.mem_cons_self)
      exact .inr (by simp [State.sweepNext, work, here])

/-! ## The theorem -/

/-- What is in the maps, what `reportClientCount` says, and who was swept. -/
structure Exact (u : Setup) (s : State μ) : Prop where
  sessions : Lists Client.id Client.inSessions s.clients s.sessions
  hub : Lists Client.id Client.inHub s.clients s.hub
  count : s.clientCount = (s.clients.filter Client.inSessions).length
  returned : ∀ c ∈ s.clients, c.phase = .returned → c.conn.closed = true
  /-- Too long without a message, and disconnected and out of the hub unless the sweep is
  still to do that. -/
  swept : ∀ k c, s.clients[k]? = some c → ∀ w ∈ c.swept,
    w.lastActive + u.maxClientIdle < s.now ∧
      (c.conn.closed = true ∧ w.removed = true ∨ k ∈ s.work.pending)

theorem Inv.exact (inv : Inv u s) (few : s.clients.length < 2 ^ 64) : Exact u s where
  sessions := inv.sessions
  hub := inv.hub
  count := inv.sessions.card_keys (inv.distinct few)
  returned c member done := by
    obtain ⟨k, here⟩ := List.getElem?_of_mem member
    exact (inv.good k c here).closed (.inr done)
  swept k c here w taken := by
    have good := inv.good k c here
    have idle := good.idle w taken
    refine ⟨by omega, ?_⟩
    cases removed : w.removed with
    | true => exact .inl ⟨good.told w taken (good.removed w taken removed), rfl⟩
    | false => exact .inr (good.pending.2 ⟨w, taken, removed⟩)

/-- **No connection leaks and none is lost.**  However the goroutines of the clients, the
sweep, fan-out and the pumps interleave, `e.sessions` and the hub hold exactly the
connections that were put there and not yet taken out, the sweep takes out only what was
idle for too long, and once all goroutines have returned both maps are empty.  A sweep that
has the lock always has a next step; that a `SendBye` is one of these steps says nothing
about how long it takes. -/
theorem nothing_leaks (reached : (machine u).Reachable s) (few : s.clients.length < 2 ^ 64) :
    Exact u s ∧
      ((s.work = .idle ∨ ∃ cutoff, s.work = .waiting cutoff) ∨ (step u s .sweepNext).isSome) ∧
      ((∀ c ∈ s.clients, c.phase = .returned) → s.sessions = ∅ ∧ s.hub = ∅) := by
  have inv := inv_of_reachable reached few
  refine ⟨inv.exact few, inv.sweeps, fun all => ⟨?_, ?_⟩⟩
  · exact inv.sessions.eq_empty fun c member => by simp [Client.inSessions, all c member]
  · exact inv.hub.eq_empty fun c member => by simp [Client.inHub, all c member]

/-- Two clients; the second goes idle and is swept while its goroutine returns. -/
def schedule : List (Ev Unit) :=
  [.accept, .accept, .serve 1, .serve 0, .serve 0, .serve 1, .serve 1, .serve 0, .tick 5, .read 0,
    .tick 8, .sweep, .scan ["c2", "c1"], .sweepNext, .read 1, .sweepNext, .sweepNext,
    .readFails 1, .sweepNext, .serve 1, .serve 1, .serve 1, .sweepNext, .deliver 0 ()]

def tenIdle : Setup := { maxClientIdle := 10 }

theorem nothing_leaks_swept :
    ∃ s : State Unit, (machine tenIdle).Reachable s ∧ s.clients.length < 2 ^ 64 ∧
      s.clientCount = 1 ∧
      (s.clients.map fun c => (c.inSessions, c.inHub, c.conn.closed)) =
        [(true, true, false), (false, false, true)] ∧ Exact tenIdle s := by
  have replay : ((machine tenIdle).run {} schedule).map (fun s => (s.clients.length, s.clientCount,
      s.clients.map fun c => (c.inSessions, c.inHub, c.conn.closed))) =
        some (2, 1, [(true, true, false), (false, false, true)]) := by
    decide +kernel
  obtain ⟨s, ran, ends⟩ := Option.map_eq_some_iff.1 replay
  obtain ⟨length, ends⟩ := Prod.mk.inj ends
  obtain ⟨count, clients⟩ := Prod.mk.inj ends
  have reached : (machine tenIdle).Reachable s := (Machine.Reachable.init rfl).run ran
  have few : s.clients.length < 2 ^ 64 := by omega
  exact ⟨s, reached, few, count, clients, (nothing_leaks reached few).1⟩

end Tether.Lifecycle
