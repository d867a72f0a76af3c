/-
# Tether.Engine.Dispatch — fan-out of one change to every session

`dispatchChange` of `engine.go`: apply the change to every stream, tell the
subscribers of a stream that halts, then hand the events of each stream to every
session that is subscribed to the stream's *shape name*.

A stream belongs to one claims key, a shape name to all of them.  So a session is
sent the events of every stream of a shape it is subscribed to, whoever the stream
was bound for; `dispatch_isolated_iff` says exactly when that is its own stream.
-/
import Tether.Engine.Session

namespace Tether

open Lib Wal Shape Transport

set_option autoImplicit false

variable {C : Type}

/-- The errors that are reported to clients. -/
def halts : ShapeError → Bool
  | .schemaDrift _ | .halted _ => true
  | _ => false

/-- The events one stream produced, under the shape name they are delivered by. -/
structure Applied where
  source : String
  shapeName : String
  events : List Event

def Session.notifyHalted (s : Session C) (shapeName text : String) : Session C :=
  if shapeName ∈ s.shapes then { s with conn := sendErr s.conn codeHalted text shapeName } else s

/-- The first loop of `dispatchChange`, over the copied streams. -/
def applyStreams (ch : Change) : List (Σ _ : String, Instance C) → KeyMap String (Session C) →
    KeyMap String (Session C) × List Applied
  | [], sessions => (sessions, [])
  | ⟨key, inst⟩ :: streams, sessions =>
      match (inst.apply ch).2 with
      | .error err =>
          applyStreams ch streams
            (if halts err then
              KeyMap.mapValues (fun _ s => s.notifyHalted (shapeNameOf key) err.text) sessions
            else sessions)
      | .ok evs =>
          let (sessions, results) := applyStreams ch streams sessions
          (sessions, if evs = [] then results else ⟨key, shapeNameOf key, evs⟩ :: results)

/-- The innermost loop: a failed enqueue disconnects the client and ends it. -/
def deliverEvents (exotic : Value → Option Json) (source shapeName : String) :
    Conn Sent → List Event → Conn Sent
  | conn, [] => conn
  | conn, ev :: evs =>
      match enqueueChange exotic conn source shapeName ev with
      | (conn, true) => deliverEvents exotic source shapeName conn evs
      | (conn, false) => conn.sendBye reasonSlowClient

/-- The loop over the results, for one session. -/
def Session.deliver (exotic : Value → Option Json) (s : Session C) : List Applied → Session C
  | [] => s
  | r :: results =>
      if r.shapeName ∈ s.shapes then
        Session.deliver exotic
          { s with conn := deliverEvents exotic r.source r.shapeName s.conn r.events } results
      else Session.deliver exotic s results

/-- `Apply` works on the streams in place. -/
def applied (ch : Change) (streams : AList fun _ : String => Instance C) :
    AList fun _ : String => Instance C where
  entries := streams.entries.map fun entry => ⟨entry.1, (entry.2.apply ch).1⟩
  nodupKeys := by
    have keys := streams.nodupKeys
    simpa [List.NodupKeys, List.keys, Function.comp_def] using keys

def Engine.dispatchChange (e : Engine C) (ch : Change) : Engine C :=
  let (sessions, results) := applyStreams ch e.streams.entries e.sessions
  { e with
    streams := applied ch e.streams
    sessions := KeyMap.mapValues (fun _ s => s.deliver e.exotic results) sessions }

theorem lookup_applied (ch : Change) (streams : AList fun _ : String => Instance C)
    (key : String) :
    (applied ch streams).lookup key =
      (streams.lookup key).map fun inst => (inst.apply ch).1 := by
  obtain ⟨entries, nodup⟩ := streams
  simp only [applied, AList.lookup]
  clear nodup
  induction entries with
  | nil => rfl
  | cons entry entries ih =>
      by_cases here : key = entry.1
      · subst here
        rw [List.dlookup_cons_eq]
        exact List.dlookup_cons_eq _ _ _
      · rw [List.dlookup_cons_ne _ _ here, ← ih]
        exact List.dlookup_cons_ne _ _ here

theorem dispatchChange_lookup (e : Engine C) (ch : Change) (key : String) :
    (e.dispatchChange ch).streams.lookup key =
      (e.streams.lookup key).map fun inst => (inst.apply ch).1 :=
  lookup_applied ch e.streams key

/-! ## What one dispatch sends -/

variable (exotic : Value → Option Json)

/-- The streams that fail in a way clients are told about, in iteration order. -/
def failures (ch : Change) (streams : List (Σ _ : String, Instance C)) :
    List (String × String) :=
  streams.filterMap fun entry =>
    match (entry.2.apply ch).2 with
    | .error err => if halts err then some (shapeNameOf entry.1, err.text) else none
    | .ok _ => none

/-- The events of the streams that emit some, in iteration order. -/
def emissions (ch : Change) (streams : List (Σ _ : String, Instance C)) : List Applied :=
  streams.filterMap fun entry =>
    match (entry.2.apply ch).2 with
    | .error _ => none
    | .ok evs => if evs = [] then none else some ⟨entry.1, shapeNameOf entry.1, evs⟩

def Session.notifyAll (s : Session C) (fails : List (String × String)) : Session C :=
  fails.foldl (fun s fail => s.notifyHalted fail.1 fail.2) s

/-- The stream loop, session by session. -/
theorem applyStreams_eq (ch : Change) (streams : List (Σ _ : String, Instance C))
    (sessions : KeyMap String (Session C)) :
    applyStreams ch streams sessions =
      (KeyMap.mapValues (fun _ s => s.notifyAll (failures ch streams)) sessions,
        emissions ch streams) := by
  induction streams generalizing sessions with
  | nil => simp [applyStreams, failures, emissions, Session.notifyAll, KeyMap.mapValues_id]
  | cons entry streams ih =>
      obtain ⟨key, inst⟩ := entry
      cases outcome : (inst.apply ch).2 with
      | error err =>
          cases reported : halts err <;>
            simp [applyStreams, failures, emissions, outcome, reported, ih,
              KeyMap.mapValues_mapValues, Session.notifyAll]
      | ok evs =>
          by_cases silent : evs = [] <;>
            simp [applyStreams, failures, emissions, outcome, ih, silent]

theorem dispatchChange_sessions (e : Engine C) (ch : Change) :
    (e.dispatchChange ch).sessions =
      KeyMap.mapValues (fun _ s => (s.notifyAll (failures ch e.streams.entries)).deliver
        e.exotic (emissions ch e.streams.entries)) e.sessions := by
  simp only [Engine.dispatchChange, applyStreams_eq, KeyMap.mapValues_mapValues]

@[simp] theorem Session.notifyHalted_shapes (s : Session C) (shapeName text : String) :
    (s.notifyHalted shapeName text).shapes = s.shapes := by
  unfold notifyHalted
  split <;> rfl

/-- A halt notice carries no event. -/
def Notice (m : Sent) : Prop :=
  m.source = none ∧ ∃ code text shape, m.message = .error code text shape

theorem notifyAll_sends (s : Session C) (fails : List (String × String)) :
    (s.notifyAll fails).shapes = s.shapes ∧ Conn.Sends Notice s.conn (s.notifyAll fails).conn := by
  induction fails generalizing s with
  | nil => exact ⟨rfl, .refl _⟩
  | cons fail fails ih =>
      obtain ⟨shapes, sends⟩ := ih (s.notifyHalted fail.1 fail.2)
      refine ⟨shapes.trans (by simp), Conn.Sends.trans ?_ sends⟩
      unfold Session.notifyHalted
      split
      · exact Conn.sends_enqueue _ ⟨rfl, _, _, _, rfl⟩
      · exact .refl _

theorem notifyAll_room (s : Session C) (fails : List (String × String)) {k : Nat}
    (room : Conn.Room (fails.length + k) s.conn) : Conn.Room k (s.notifyAll fails).conn := by
  induction fails generalizing s with
  | nil => exact room.mono (Nat.le_add_left _ _)
  | cons fail fails ih =>
      refine ih (s.notifyHalted fail.1 fail.2) ?_
      have more : Conn.Room (fails.length + k + 1) s.conn :=
        room.mono (by rw [List.length_cons]; omega)
      unfold Session.notifyHalted
      split
      · exact (more.enqueue _).2.2
      · exact more.mono (Nat.le_succ _)

/-- The change message for an event of the result `r`. -/
def Applied.sent (r : Applied) (ev : Event) : Sent :=
  ⟨.change r.shapeName ev.offset ev.op ev.row, some r.source⟩

/-- What a session subscribed to `shapes` may be sent for `results`. -/
def Due (shapes : Finset String) (results : List Applied) (m : Sent) : Prop :=
  ∃ r ∈ results, r.shapeName ∈ shapes ∧
    ∃ ev ∈ r.events, ev.row.marshals exotic = true ∧ m = r.sent ev

theorem deliverEvents_cons (r : Applied) (conn : Conn Sent) (ev : Event) (evs : List Event) :
    deliverEvents exotic r.source r.shapeName conn (ev :: evs) =
      if ev.row.marshals exotic then
        if (conn.enqueue (r.sent ev)).2 then
          deliverEvents exotic r.source r.shapeName (conn.enqueue (r.sent ev)).1 evs
        else (conn.enqueue (r.sent ev)).1.sendBye reasonSlowClient
      else deliverEvents exotic r.source r.shapeName conn evs := by
  by_cases marshals : ev.row.marshals exotic = true
  · simp only [deliverEvents, enqueueChange, if_pos marshals]
    change (match conn.enqueue (r.sent ev) with
      | (conn, true) => deliverEvents exotic r.source r.shapeName conn evs
      | (conn, false) => conn.sendBye reasonSlowClient) = _
    rcases conn.enqueue (r.sent ev) with ⟨next, _ | _⟩ <;> rfl
  · simp only [deliverEvents, enqueueChange, if_neg marshals]

theorem deliverEvents_sends (r : Applied) (conn : Conn Sent) (evs : List Event) :
    Conn.Sends (fun m => ∃ ev ∈ evs, ev.row.marshals exotic = true ∧ m = r.sent ev) conn
      (deliverEvents exotic r.source r.shapeName conn evs) := by
  induction evs generalizing conn with
  | nil => exact .refl _
  | cons ev evs ih =>
      have later : ∀ c, Conn.Sends
          (fun m => ∃ ev' ∈ ev :: evs, ev'.row.marshals exotic = true ∧ m = r.sent ev') c
          (deliverEvents exotic r.source r.shapeName c evs) := fun c =>
        (ih c).mono fun m ⟨ev', member, due⟩ => ⟨ev', List.mem_cons_of_mem _ member, due⟩
      rw [deliverEvents_cons]
      split
      · rename_i marshals
        refine Conn.Sends.trans (Conn.sends_enqueue conn (m := r.sent ev)
          ⟨ev, List.mem_cons_self, marshals, rfl⟩) ?_
        split
        · exact later _
        · exact Conn.sends_sendBye _ _
      · exact later conn

theorem deliverEvents_complete (r : Applied) (conn : Conn Sent) (evs : List Event) {k : Nat}
    (room : Conn.Room (evs.length + k) conn) :
    Conn.Room k (deliverEvents exotic r.source r.shapeName conn evs) ∧
      ∀ ev ∈ evs, ev.row.marshals exotic = true →
        r.sent ev ∈ (deliverEvents exotic r.source r.shapeName conn evs).queue := by
  induction evs generalizing conn with
  | nil => exact ⟨room.mono (Nat.le_add_left _ _), by simp⟩
  | cons ev evs ih =>
      have more : Conn.Room (evs.length + k + 1) conn := room.mono (by rw [List.length_cons]; omega)
      obtain ⟨accepted, queue, room'⟩ := more.enqueue (r.sent ev)
      rw [deliverEvents_cons]
      split
      · obtain ⟨left, sent⟩ := ih _ room'
        refine ⟨left, fun ev' member marshals => ?_⟩
        rcases List.mem_cons.1 member with rfl | later
        · refine (deliverEvents_sends exotic r _ evs).subset ?_
          rw [queue]
          exact List.mem_append_right _ List.mem_cons_self
        · exact sent ev' later marshals
      · rename_i unmarshalled
        obtain ⟨left, sent⟩ := ih _ (more.mono (Nat.le_succ _))
        refine ⟨left, fun ev' member marshals => ?_⟩
        rcases List.mem_cons.1 member with rfl | later
        · exact absurd marshals unmarshalled
        · exact sent ev' later marshals

/-- Only due messages are sent. -/
theorem deliver_sends (s : Session C) (results : List Applied) :
    Conn.Sends (Due exotic s.shapes results) s.conn (s.deliver exotic results).conn := by
  induction results generalizing s with
  | nil => exact .refl _
  | cons r results ih =>
      have wider : ∀ m, Due exotic s.shapes results m → Due exotic s.shapes (r :: results) m :=
        fun m ⟨r', member, due⟩ => ⟨r', List.mem_cons_of_mem _ member, due⟩
      simp only [Session.deliver]
      split
      · rename_i subscribed
        refine Conn.Sends.trans ((deliverEvents_sends exotic r s.conn r.events).mono ?_)
          ((ih { s with conn := _ }).mono wider)
        exact fun m due => ⟨r, List.mem_cons_self, subscribed, due⟩
      · exact (ih s).mono wider

/-- A connection with room is sent every due message. -/
theorem deliver_complete (s : Session C) (results : List Applied)
    (room : Conn.Room (results.map fun r => r.events.length).sum s.conn) {m : Sent}
    (due : Due exotic s.shapes results m) : m ∈ (s.deliver exotic results).conn.queue := by
  induction results generalizing s with
  | nil =>
      obtain ⟨r, member, -⟩ := due
      simp at member
  | cons r results ih =>
      simp only [List.map_cons, List.sum_cons] at room
      obtain ⟨r', member, subscribed, ev, inEvents, marshals, rfl⟩ := due
      obtain ⟨room', sent⟩ := deliverEvents_complete exotic r s.conn r.events room
      simp only [Session.deliver]
      split
      · rcases List.mem_cons.1 member with rfl | later
        · exact (deliver_sends exotic { s with conn := _ } results).subset
            (sent ev inEvents marshals)
        · exact ih { s with conn := _ } room' ⟨r', later, subscribed, ev, inEvents, marshals, rfl⟩
      · rename_i other
        rcases List.mem_cons.1 member with rfl | later
        · exact absurd subscribed other
        · exact ih s (room.mono (Nat.le_add_left _ _))
            ⟨r', later, subscribed, ev, inEvents, marshals, rfl⟩

/-! ## Whose events a session is sent -/

namespace Engine

/-- The same engine with other connections, so with other buffers. -/
def withConns (e : Engine C) (conns : String → Conn Sent) : Engine C :=
  { e with sessions := KeyMap.mapValues (fun id s => { s with conn := conns id }) e.sessions }

/-- `m` is new in the buffer of session `s` (under `id`) after `ch` is dispatched. -/
def Sends (e : Engine C) (ch : Change) (id : String) (s : Session C) (m : Sent) : Prop :=
  e.sessions.lookup id = some s ∧
    ∃ s', (e.dispatchChange ch).sessions.lookup id = some s' ∧
      m ∈ s'.conn.queue.drop s.conn.queue.length

/-- Every change message comes from the stream of the session's own claims key. -/
def SourceOwn (e : Engine C) (ch : Change) : Prop :=
  ∀ id s m, e.Sends ch id s m → ∀ shape offset op row, m.message = .change shape offset op row →
    m.source = some (streamKey shape (e.claimsKey s.claims))

/-- Every inserted or updated row matches the filter bound for the session's own
claims. -/
def RowsOwn (e : Engine C) (ch : Change) : Prop :=
  ∀ id s m, e.Sends ch id s m → ∀ shape offset op row, m.message = .change shape offset op row →
    op ≠ .delete → ∀ d bind f, e.registry shape = some d → d.bind = some bind →
      bind s.claims = .ok f → f.match (some row) = true

/-- The stream emits an event for the change that can be sent. -/
def Emits (inst : Instance C) (ch : Change) : Prop :=
  ∃ evs, (inst.apply ch).2 = .ok evs ∧ ∃ ev ∈ evs, ev.row.marshals exotic = true

/-- Every stream that emits has the key of every session subscribed to its name. -/
def OwnStreams (e : Engine C) (ch : Change) : Prop :=
  ∀ key inst, ⟨key, inst⟩ ∈ e.streams.entries → Emits e.exotic inst ch →
    ∀ id s, e.sessions.lookup id = some s → shapeNameOf key ∈ s.shapes →
      key = streamKey (shapeNameOf key) (e.claimsKey s.claims)

/-- Every stream has the filter its shape binds for some claims with its key. -/
def StreamsBound (e : Engine C) : Prop :=
  ∀ key inst, ⟨key, inst⟩ ∈ e.streams.entries →
    ∃ d bind claims, e.registry (shapeNameOf key) = some d ∧ d.bind = some bind ∧
      bind claims = .ok inst.filter ∧ key = streamKey (shapeNameOf key) (e.claimsKey claims)

/-- Claims with one key are bound to one filter. -/
def KeyFaithful (e : Engine C) : Prop :=
  ∀ name d bind claims claims', e.registry name = some d → d.bind = some bind →
    e.claimsKey claims = e.claimsKey claims' → bind claims = bind claims'

theorem mem_emissions {ch : Change} {streams : List (Σ _ : String, Instance C)} {r : Applied}
    (member : r ∈ emissions ch streams) :
    ∃ key inst, ⟨key, inst⟩ ∈ streams ∧ r.source = key ∧ r.shapeName = shapeNameOf key ∧
      (inst.apply ch).2 = .ok r.events := by
  obtain ⟨⟨key, inst⟩, here, emitted⟩ := List.mem_filterMap.1 member
  refine ⟨key, inst, here, ?_⟩
  dsimp only at emitted
  split at emitted
  · cases emitted
  · rename_i evs outcome
    split_ifs at emitted
    cases emitted
    exact ⟨rfl, rfl, outcome⟩

/-- A change message that is sent stands for an event of a stream whose shape name
the session is subscribed to. -/
theorem Sends.change {e : Engine C} {ch : Change} {id : String} {s : Session C} {m : Sent}
    (sends : e.Sends ch id s m) {shape : String} {offset : Int} {op : EventOp} {row : Row}
    (isChange : m.message = .change shape offset op row) :
    ∃ key inst evs ev, ⟨key, inst⟩ ∈ e.streams.entries ∧ shape = shapeNameOf key ∧
      shape ∈ s.shapes ∧ m.source = some key ∧ (inst.apply ch).2 = .ok evs ∧ ev ∈ evs ∧
      ev.row.marshals e.exotic = true ∧ ev.op = op ∧ ev.row = row := by
  obtain ⟨present, s', found, fresh⟩ := sends
  rw [dispatchChange_sessions, KeyMap.lookup_mapValues, present] at found
  cases found
  obtain ⟨shapes, notices⟩ := notifyAll_sends s (failures ch e.streams.entries)
  have delivered := deliver_sends e.exotic (s.notifyAll (failures ch e.streams.entries))
    (emissions ch e.streams.entries)
  have either := ((notices.mono fun _ => Or.inl).trans
    (delivered.mono fun _ => Or.inr)).mem_drop fresh
  rcases either with ⟨-, _, _, _, isError⟩ | ⟨r, member, subscribed, ev, inEvents, marshals, rfl⟩
  · rw [isChange] at isError
    cases isError
  · obtain ⟨key, inst, here, source, name, outcome⟩ := mem_emissions member
    simp only [Applied.sent, Message.change.injEq] at isChange
    obtain ⟨rfl, -, sameOp, sameRow⟩ := isChange
    exact ⟨key, inst, r.events, ev, here, name, shapes ▸ subscribed, by simp [Applied.sent, source],
      outcome, inEvents, marshals, sameOp, sameRow⟩

theorem source_own {e : Engine C} {ch : Change} (own : e.OwnStreams ch) : e.SourceOwn ch := by
  intro id s m sends shape offset op row isChange
  obtain ⟨key, inst, evs, ev, here, rfl, subscribed, source, outcome, inEvents, marshals, -, -⟩ :=
    sends.change isChange
  rw [source, ← own key inst here ⟨evs, outcome, ev, inEvents, marshals⟩ id s sends.1 subscribed]

/-- An inserted or updated row matches the filter of the stream it comes from. -/
theorem emitted_matches {inst : Instance C} {ch : Change} {evs : List Event} {ev : Event}
    (outcome : (inst.apply ch).2 = .ok evs) (member : ev ∈ evs) (kept : ev.op ≠ .delete) :
    inst.filter.match (some ev.row) = true := by
  have stepped := inst.apply_step ch
  rw [outcome] at stepped
  generalize (inst.apply ch).1 = inst' at stepped
  cases stepped with
  | ignored _ _ => cases member
  | silent _ _ _ _ _ => cases member
  | moved _ _ _ _ decided =>
      cases List.mem_singleton.1 member
      rcases Instance.project_sound decided with matched | ⟨deleted, -⟩
      · exact matched
      · exact absurd deleted kept

theorem rows_own {e : Engine C} {ch : Change} (bound : e.StreamsBound) (faithful : e.KeyFaithful)
    (own : e.OwnStreams ch) : e.RowsOwn ch := by
  intro id s m sends shape offset op row isChange kept d bind f registered binder filtered
  obtain ⟨key, inst, evs, ev, here, rfl, subscribed, source, outcome, inEvents, marshals, rfl,
    rfl⟩ := sends.change isChange
  obtain ⟨d', bind', claims, registered', binder', filtered', keyed⟩ := bound key inst here
  cases registered.symm.trans registered'
  cases binder.symm.trans binder'
  -- the stream's claims and the session's have one key, hence one filter
  have keyed' := own key inst here ⟨evs, outcome, ev, inEvents, marshals⟩ id s sends.1 subscribed
  have same : e.claimsKey s.claims = e.claimsKey claims := by
    have joined := keyed'.symm.trans keyed
    simpa [streamKey] using joined
  have filters := faithful _ d bind s.claims claims registered binder same
  rw [filtered, filtered'] at filters
  cases filters
  exact emitted_matches outcome inEvents kept

/-- Open connections with room for everything one dispatch can send. -/
def roomy (e : Engine C) (ch : Change) : Conn Sent where
  capacity := (failures ch e.streams.entries).length +
    ((emissions ch e.streams.entries).map fun r => r.events.length).sum
  bounded := Nat.zero_le _

theorem own_streams {e : Engine C} {ch : Change}
    (isolated : (e.withConns fun _ => e.roomy ch).SourceOwn ch) : e.OwnStreams ch := by
  rintro key inst here ⟨evs, outcome, ev, inEvents, marshals⟩ id s present subscribed
  set r : Applied := ⟨key, shapeNameOf key, evs⟩ with r_eq
  have member : r ∈ emissions ch e.streams.entries := by
    refine List.mem_filterMap.2 ⟨⟨key, inst⟩, here, ?_⟩
    simp only [outcome, if_neg (List.ne_nil_of_mem inEvents), r_eq]
  set s' : Session C := { s with conn := e.roomy ch } with s'_eq
  have room : Conn.Room ((failures ch e.streams.entries).length +
      ((emissions ch e.streams.entries).map fun r => r.events.length).sum) s'.conn :=
    ⟨rfl, by simp [s'_eq, roomy]⟩
  have due : Due e.exotic (s'.notifyAll (failures ch e.streams.entries)).shapes
      (emissions ch e.streams.entries) (r.sent ev) :=
    ⟨r, member, (notifyAll_sends s' _).1 ▸ subscribed, ev, inEvents, marshals, rfl⟩
  have sent := deliver_complete e.exotic _ _ (notifyAll_room s' _ room) due
  have present' : (e.withConns fun _ => e.roomy ch).sessions.lookup id = some s' := by
    simp [withConns, KeyMap.lookup_mapValues, present, s'_eq]
  have sends : (e.withConns fun _ => e.roomy ch).Sends ch id s' (r.sent ev) := by
    refine ⟨present', _, ?_, by simpa [s'_eq, roomy] using sent⟩
    rw [dispatchChange_sessions, KeyMap.lookup_mapValues, present']
    rfl
  exact Option.some.inj (isolated id s' _ sends _ _ _ _ rfl)

/-- **Tenant isolation on the live path.**  Whatever the buffers hold, every change
message comes from the session's own stream exactly when every emitting stream has
the key of every session subscribed to its name; and then, for streams bound under
a claims key that determines the filter, every row sent matches the filter of the
session's own claims. -/
theorem dispatch_isolated_iff (e : Engine C) (ch : Change) :
    ((∀ conns, (e.withConns conns).SourceOwn ch) ↔ e.OwnStreams ch) ∧
      (e.StreamsBound → e.KeyFaithful → e.OwnStreams ch →
        ∀ conns, (e.withConns conns).RowsOwn ch) := by
  have blind : ∀ conns, e.OwnStreams ch → (e.withConns conns).OwnStreams ch := by
    intro conns own key inst here emits id s present subscribed
    simp only [withConns, KeyMap.lookup_mapValues, Option.map_eq_some_iff] at present
    obtain ⟨s', present', rfl⟩ := present
    exact own key inst here emits id s' present' subscribed
  refine ⟨⟨fun isolated => own_streams (isolated _), fun own conns => source_own (blind conns own)⟩,
    fun bound faithful own conns => rows_own bound faithful (blind conns own)⟩

namespace Tenants

/-- The tasks of the tenant that the claims name. -/
def tenantFilter (tenant : String) : Filter :=
  ⟨[{ column := "tenant", op := .eq, value := .string tenant }]⟩

def tasks : Definition String :=
  { name := "tasks", schema := "", table := "", primaryKey := [],
    bind := some fun tenant => .ok (tenantFilter tenant) }

/-- One subscribed session per tenant, each with its own stream. -/
def engine (tenants : List String) : Engine String where
  registry name := if name = "tasks" then some tasks else none
  claimsKey := id
  exotic _ := none
  streams := ⟨(tenants.dedup.map fun tenant =>
      ⟨streamKey "tasks" tenant, .start tasks (tenantFilter tenant)⟩), by
    have nodup : (tenants.dedup.map (streamKey "tasks")).Nodup :=
      (List.nodup_dedup tenants).map fun a b same => by simpa [streamKey] using same
    simpa [List.NodupKeys, List.keys, Function.comp_def] using nodup⟩
  sessions := KeyMap.ofList (tenants.map fun tenant =>
    (tenant, { conn := .new 64, claims := tenant, shapes := {"tasks"} }))

def row : Row := KeyMap.ofList [("id", .int64 1), ("tenant", .string "acme")]

def inserted : Change :=
  { schema := "public", table := "tasks", op := .insert, commitLSN := 10, new := some row }

theorem acme_stream {key : String} {inst : Instance String}
    (here : ⟨key, inst⟩ ∈ (engine ["acme"]).streams.entries) :
    key = streamKey "tasks" "acme" ∧ inst.filter = tenantFilter "acme" := by
  have only : (engine ["acme"]).streams.entries =
      [⟨streamKey "tasks" "acme", .start tasks (tenantFilter "acme")⟩] := rfl
  rw [only, List.mem_singleton] at here
  cases here
  exact ⟨rfl, rfl⟩

theorem acme_session {id : String} {s : Session String}
    (present : (engine ["acme"]).sessions.lookup id = some s) : s.claims = "acme" := by
  simp only [engine, List.map_cons, List.map_nil, KeyMap.lookup_ofList_cons,
    KeyMap.lookup_ofList_nil] at present
  split at present
  · cases present
    simp_all
  · cases present

/-- With one tenant the condition holds and the tenant gets its own rows. -/
theorem single_tenant_isolated :
    (∀ conns, ((engine ["acme"]).withConns conns).SourceOwn inserted) ∧
      ∀ conns, ((engine ["acme"]).withConns conns).RowsOwn inserted := by
  have own : (engine ["acme"]).OwnStreams inserted := by
    intro key inst here _ id s present _
    rw [(acme_stream here).1, acme_session present]
    decide
  have bound : (engine ["acme"]).StreamsBound := by
    intro key inst here
    obtain ⟨rfl, filter⟩ := acme_stream here
    have name : shapeNameOf (streamKey "tasks" "acme") = "tasks" := by decide
    exact ⟨tasks, _, "acme", by simp [engine, name], rfl, by rw [filter], by decide⟩
  have faithful : (engine ["acme"]).KeyFaithful := by
    intro name d bind claims claims' _ _ same
    exact congrArg bind same
  obtain ⟨exact, rows⟩ := dispatch_isolated_iff (engine ["acme"]) inserted
  exact ⟨exact.2 own, rows bound faithful own⟩

/-- A second tenant subscribed to the same shape name is sent the first one's row. -/
theorem second_tenant_receives_row :
    ∃ s m, (engine ["acme", "bolt"]).Sends inserted "bolt" s m ∧ s.claims = "bolt" ∧
      m.message = .change "tasks" 1 .insert row ∧
      m.source = some (streamKey "tasks" "acme") ∧
      m.source ≠ some (streamKey "tasks" ((engine ["acme", "bolt"]).claimsKey s.claims)) ∧
      (tenantFilter s.claims).match (some row) = false := by
  refine ⟨{ conn := .new 64, claims := "bolt", shapes := {"tasks"} },
    ⟨.change "tasks" 1 .insert row, some (streamKey "tasks" "acme")⟩,
    ⟨rfl, _, rfl, ?_⟩, rfl, rfl, rfl, by decide, by decide⟩
  decide

end Tenants

end Engine

end Tether
