/-
# Tether.Engine.Replacement — streams under their subscribers

`subscribeShape` looks a stream up, lets go of the lock for the whole of
`snapshot.Take`, and then stores its instance whatever the map holds by then.  Its cases
on the resume offset leave out the negative ones, so a client can make it store over a
live stream at will.

`Kept` compares two states of a run: every stream is still the same instance, and lets the
same changes through.  Without slot-lag recovery that holds exactly as long as no store
finds its key taken (`StoresOnce`), and none does if streams that exist can serve the
resume offsets asked of them and first subscriptions to one stream do not overlap
(`Exclusive`).  The offsets that fan-out delivers to a session from one stream then only
rise: `Ordered` is the invariant, which follows an event from the log through `results` and
the list of deliveries to the buffer.
-/
import Tether.Engine.Live
import Tether.Lib.Lists

namespace Tether.Live

open Lib Wal Shape Transport

set_option autoImplicit false

variable {C : Type} {u : Setup C} {s t : State C}

/-- `t` has the streams of `s`, with the same LSN gates. -/
def Kept (s t : State C) : Prop :=
  ∀ key a, s.streams.lookup key = some a → t.streams.lookup key = some a ∧
    ∃ inst inst', s.heap[a]? = some inst ∧ t.heap[a]? = some inst' ∧
      ∀ ch, inst'.skips ch = inst.skips ch

/-- What fan-out delivers to a session from one stream has rising offsets. -/
def Rising (n n' : Note C) : Prop :=
  ∀ j key o o', n = .delivered j key o → n' = .delivered j key o' → o < o'

/-- The key of a new stream is not in use when the stream is stored. -/
def StoresOnce (u : Setup C) (s : State C) : Ev C → Bool
  | .session j =>
      match s.clients[j]? with
      | none => true
      | some c =>
          match c.phase with
          | .loaded d _ _ _ => u.key d c.session.claims ∉ s.streams
          | _ => true
  | _ => true

/-- No slot-lag recovery. -/
def Calm (e : Ev C) : Prop := ∀ listed, e ≠ .recover listed

/-! ## What fan-out has under way -/

/-- `o` is an offset of the stream of `key`. -/
def Reached (s : State C) (key : String) (o : Int) : Prop :=
  ∃ a inst, s.streams.lookup key = some a ∧ s.heap[a]? = some inst ∧ o ≤ inst.log.lastOffset

/-- The one event of `result` is in the stream's log, and past all that the session was
delivered from the stream. -/
structure Due (s : State C) (j : Nat) (result : Applied) : Prop where
  single : result.events.length ≤ 1
  reached : ∀ ev ∈ result.events, Reached s result.source ev.offset
  later : ∀ ev ∈ result.events, ∀ o, .delivered j result.source o ∈ s.trace → o < ev.offset

/-- `between` is the key of the stream whose log is being appended to. -/
structure Round.Ordered (s : State C) (r : Round) (between : List String) : Prop where
  listed : r.listed.Nodup
  held : ∀ key a, (key, a) ∈ r.streams → s.streams.lookup key = some a
  keys : (r.results.map Applied.source ++ (between ++ r.streams.map Prod.fst)).Nodup
  results : ∀ result ∈ r.results, ∀ j, Due s j result

structure Todo (s : State C) (todo : List (Nat × Applied)) : Prop where
  distinct : todo.Pairwise fun p q => ¬ (p.1 = q.1 ∧ p.2.source = q.2.source)
  due : ∀ p ∈ todo, Due s p.1 p.2

theorem Todo.tail {p : Nat × Applied} {todo : List (Nat × Applied)} (ordered : Todo s (p :: todo)) :
    Todo s todo :=
  ⟨ordered.distinct.of_cons, fun q later => ordered.due q (List.mem_cons_of_mem _ later)⟩

/-- Without recovery the goroutine of `Run` never goes on with a broadcast. -/
def Rest.Ordered (s : State C) : Rest → Prop
  | .idle => True
  | .delivering todo => Todo s todo
  | .broadcasting _ => False

def Work.Ordered (s : State C) : Work → Prop
  | .idle => True
  | .applying r | .notifying r _ _ _ | .telling r _ _ _ _ => r.Ordered s []
  | .appending r key a _ => r.Ordered s [key] ∧ s.streams.lookup key = some a
  | .delivering todo => Todo s todo
  | .sending j result todo => Todo s ((j, result) :: todo)
  | .broadcasting _ => False
  | .leaving _ _ rest | .parting _ rest => rest.Ordered s

theorem Rest.Ordered.work {rest : Rest} (ordered : rest.Ordered s) : rest.work.Ordered s := by
  cases rest <;> exact ordered

structure Ordered (s : State C) : Prop where
  valid : ∀ key a, s.streams.lookup key = some a → a < s.heap.length
  rising : s.trace.Pairwise Rising
  reached : ∀ j key o, .delivered j key o ∈ s.trace → Reached s key o
  work : s.work.Ordered s

/-! ## What does not disturb it -/

/-- Streams are kept, instances grow, and nothing is delivered. -/
structure Undisturbed (s t : State C) : Prop where
  streams : ∀ key a, s.streams.lookup key = some a → t.streams.lookup key = some a
  heap : Grows s.heap t.heap
  trace : ∃ notes, t.trace = s.trace ++ notes ∧ ∀ n ∈ notes, ∀ j key o, n ≠ .delivered j key o

theorem Evolves.lastOffset_le {inst inst' : Instance C} (evolves : Evolves inst inst') :
    inst.log.lastOffset ≤ inst'.log.lastOffset := by
  rw [Log.lastOffset_eq, Log.lastOffset_eq]
  exact_mod_cast evolves.events.length_le

namespace Undisturbed

theorem reached (same : Undisturbed s t) {key : String} {o : Int} (reached : Reached s key o) :
    Reached t key o := by
  obtain ⟨a, inst, held, found, within⟩ := reached
  obtain ⟨inst', found', evolves⟩ := same.heap a inst found
  exact ⟨a, inst', same.streams key a held, found', within.trans evolves.lastOffset_le⟩

theorem delivered (same : Undisturbed s t) {j : Nat} {key : String} {o : Int}
    (delivered : .delivered j key o ∈ t.trace) : .delivered j key o ∈ s.trace := by
  obtain ⟨notes, grown, others⟩ := same.trace
  rw [grown] at delivered
  rcases List.mem_append.1 delivered with old | new
  · exact old
  · exact absurd rfl (others _ new j key o)

theorem due (same : Undisturbed s t) {j : Nat} {result : Applied} (due : Due s j result) :
    Due t j result where
  single := due.single
  reached ev member := same.reached (due.reached ev member)
  later ev member o delivered := due.later ev member o (same.delivered delivered)

theorem round (same : Undisturbed s t) {r : Round} {between : List String}
    (ordered : r.Ordered s between) : r.Ordered t between where
  listed := ordered.listed
  held key a member := same.streams key a (ordered.held key a member)
  keys := ordered.keys
  results result member j := same.due (ordered.results result member j)

theorem todo (same : Undisturbed s t) {todo : List (Nat × Applied)} (ordered : Todo s todo) :
    Todo t todo :=
  ⟨ordered.distinct, fun p member => same.due (ordered.due p member)⟩

theorem rest (same : Undisturbed s t) {rest : Rest} (ordered : rest.Ordered s) :
    rest.Ordered t := by
  cases rest with
  | idle => trivial
  | delivering => exact same.todo ordered
  | broadcasting => exact ordered

theorem work (same : Undisturbed s t) {work : Work} (ordered : work.Ordered s) :
    work.Ordered t := by
  cases work with
  | idle => trivial
  | applying | notifying | telling => exact same.round ordered
  | appending => exact ⟨same.round ordered.1, same.streams _ _ ordered.2⟩
  | delivering | sending => exact same.todo ordered
  | broadcasting => exact ordered
  | leaving | parting => exact same.rest ordered

theorem rising (same : Undisturbed s t) (rising : s.trace.Pairwise Rising) :
    t.trace.Pairwise Rising := by
  obtain ⟨notes, grown, others⟩ := same.trace
  rw [grown, List.pairwise_append]
  refine ⟨rising, List.pairwise_of_forall_mem_list fun n member => ?_, fun n _ n' new => ?_⟩
  · intro n' _ j key o o' first
    exact absurd first (others n member j key o)
  · intro j key o o' _ second
    exact absurd second (others n' new j key o')

end Undisturbed

/-- Everything but the work follows from the streams, the heap and the trace. -/
theorem Ordered.keep (ordered : Ordered s) (same : Undisturbed s t)
    (valid : ∀ key a, t.streams.lookup key = some a → a < t.heap.length)
    (work : t.work.Ordered t) : Ordered t where
  valid := valid
  rising := same.rising ordered.rising
  reached j key o delivered := same.reached (ordered.reached j key o (same.delivered delivered))
  work := work

theorem undisturbed_heap {a : Nat} {inst inst' : Instance C} (found : s.heap[a]? = some inst)
    (evolves : Evolves inst inst') (work : Work) :
    Undisturbed s { s with heap := s.heap.set a inst', work := work } :=
  ⟨fun _ _ held => held, grows_set found evolves, [], by simp, by simp⟩

/-- A step that leaves streams, heap and trace alone. -/
theorem undisturbed_of_eq (streams : t.streams = s.streams) (heap : t.heap = s.heap)
    (trace : t.trace = s.trace) : Undisturbed s t :=
  ⟨fun _ _ held => streams ▸ held, heap ▸ .refl _, [], by simp [trace], by simp⟩

/-- Fan-out goes on to work that is in order. -/
theorem Ordered.turn (ordered : Ordered s) {w : Work} (next : w.Ordered s)
    (clients : List (Client C)) : Ordered { s with clients := clients, work := w } := by
  have same : Undisturbed s { s with clients := clients, work := w } :=
    undisturbed_of_eq rfl rfl rfl
  exact ordered.keep same ordered.valid (same.work next)

theorem Ordered.turnHeap (ordered : Ordered s) {w : Work} (next : w.Ordered s) {a : Nat}
    {inst inst' : Instance C} (found : s.heap[a]? = some inst) (evolves : Evolves inst inst') :
    Ordered { s with heap := s.heap.set a inst', work := w } := by
  have same := undisturbed_heap found evolves w
  exact ordered.keep same (fun key a held => by simpa using ordered.valid key a held)
    (same.work next)

/-! ## The steps of a round -/

namespace Round.Ordered

variable {r : Round}

theorem advance {key : String} {a : Nat} {streams : List (String × Nat)} (ordered : r.Ordered s [])
    (next : r.streams = (key, a) :: streams) :
    ({ r with streams := streams } : Round).Ordered s [key] ∧ s.streams.lookup key = some a := by
  refine ⟨⟨ordered.listed, fun key' a' member => ?_, ?_, ordered.results⟩, ?_⟩
  · exact ordered.held key' a' (next ▸ List.mem_cons_of_mem _ member)
  · have keys := ordered.keys
    rw [next] at keys
    exact keys
  · exact ordered.held key a (next ▸ List.mem_cons_self)

theorem drop {key : String} (ordered : r.Ordered s [key]) : r.Ordered s [] := by
  refine ⟨ordered.listed, ordered.held, ?_, ordered.results⟩
  exact ordered.keys.sublist (List.Sublist.append_left (List.sublist_cons_self _ _) _)

theorem afterError {key : String} (ordered : r.Ordered s []) (err : ShapeError) :
    (State.afterError r key err).Ordered s := by
  unfold State.afterError
  split <;> exact ordered

/-- The deliveries of a round are one for each session and stream. -/
theorem todo (ordered : r.Ordered s []) :
    Todo s (r.listed.flatMap fun j => r.results.map fun result => (j, result)) := by
  have sources : r.results.Pairwise fun x y => x.source ≠ y.source :=
    List.pairwise_map.1 (List.nodup_append.1 ordered.keys).1
  refine ⟨List.pairwise_flatMap.2 ⟨fun j _ => ?_, ?_⟩, fun p member => ?_⟩
  · refine List.pairwise_map.2 (sources.imp fun distinct same => ?_)
    exact distinct same.2
  · refine ordered.listed.imp fun distinct p mine q theirs same => ?_
    obtain ⟨x, -, rfl⟩ := List.mem_map.1 mine
    obtain ⟨y, -, rfl⟩ := List.mem_map.1 theirs
    exact distinct same.1
  · obtain ⟨j, -, inner⟩ := List.mem_flatMap.1 member
    obtain ⟨result, here, rfl⟩ := List.mem_map.1 inner
    exact ordered.results result here j

end Round.Ordered

/-- An event appended to the log of its stream is past all that was delivered from it. -/
theorem ordered_append {r : Round} {key : String} {a : Nat} {inst : Instance C} {op : EventOp}
    {row : Row} {ev : Event} {log : Log} (ordered : Ordered s) (round : r.Ordered s [key])
    (held : s.streams.lookup key = some a) (found : s.heap[a]? = some inst)
    (appended : inst.log.append op inst.defn.table row = .ok (ev, log)) :
    Ordered { s with
      heap := s.heap.set a { inst with log := log }
      work := .applying { r with results := r.results ++ [⟨key, shapeNameOf key, [ev]⟩] } } := by
  obtain ⟨number, last⟩ := Subscribe.append_lastOffset appended
  have same := undisturbed_heap found (evolves_append appended)
    (.applying { r with results := r.results ++ [⟨key, shapeNameOf key, [ev]⟩] })
  have inside := (List.getElem?_eq_some_iff.1 found).1
  refine ordered.keep same (fun key a held => by simpa using ordered.valid key a held) ?_
  have kept := same.round round
  refine ⟨kept.listed, kept.held, ?_, fun result member j => ?_⟩
  · simpa using kept.keys
  · rcases List.mem_append.1 member with old | new
    · exact kept.results result old j
    · cases List.mem_singleton.1 new
      refine ⟨le_refl _, fun ev' here => ?_, fun ev' here o delivered => ?_⟩
      · cases List.mem_singleton.1 here
        exact ⟨a, { inst with log := log }, held, by simp [inside], by rw [number, last]⟩
      · cases List.mem_singleton.1 here
        obtain ⟨a', inst', held', found', within⟩ :=
          ordered.reached j key o (same.delivered delivered)
        cases held.symm.trans held'
        cases found.symm.trans found'
        rw [number]
        omega

section Sent

variable {j : Nat} {result : Applied} {todo : List (Nat × Applied)} {ev : Event}
  {events : List Event}

/-- After its one event, a result has nothing left to deliver. -/
theorem Todo.last (pending : Todo s ((j, result) :: todo)) (next : result.events = ev :: events) :
    events = [] := by
  have single := (pending.due _ List.mem_cons_self).single
  rw [next] at single
  exact List.length_eq_zero_iff.1 (Nat.le_zero.1 (Nat.le_of_succ_le_succ single))

theorem Todo.sent (pending : Todo s ((j, result) :: todo)) (next : result.events = ev :: events) :
    Todo s ((j, { result with events := events }) :: todo) := by
  obtain rfl := pending.last next
  obtain ⟨apart, distinct⟩ := List.pairwise_cons.1 pending.distinct
  refine ⟨List.pairwise_cons.2 ⟨apart, distinct⟩, fun p member => ?_⟩
  rcases List.mem_cons.1 member with rfl | later
  · exact ⟨Nat.zero_le _, by simp, by simp⟩
  · exact pending.due p (List.mem_cons_of_mem _ later)

/-- A delivery. -/
theorem ordered_sent (clients : List (Client C)) (ordered : Ordered s)
    (pending : Todo s ((j, result) :: todo)) (next : result.events = ev :: events) :
    Ordered { s with
      clients := clients
      work := .sending j { result with events := events } todo
      trace := s.trace ++ [.delivered j result.source ev.offset] } := by
  have due := pending.due _ List.mem_cons_self
  have here : ev ∈ result.events := next ▸ List.mem_cons_self
  obtain ⟨apart, -⟩ := List.pairwise_cons.1 pending.distinct
  obtain ⟨distinct, left⟩ := pending.sent next
  obtain rfl := pending.last next
  refine ⟨ordered.valid, ?_, fun j' key o delivered => ?_, ⟨distinct, fun p member => ?_⟩⟩
  · refine List.pairwise_append.2 ⟨ordered.rising, List.pairwise_singleton _ _, ?_⟩
    intro n member n' new j' key o o' first second
    cases List.mem_singleton.1 new
    cases second
    exact due.later ev here o (first ▸ member)
  · rcases List.mem_append.1 delivered with old | new
    · exact ordered.reached j' key o old
    · cases List.mem_singleton.1 new
      exact due.reached ev here
  · have due' := left p member
    refine ⟨due'.single, due'.reached, fun ev' member' o delivered => ?_⟩
    rcases List.mem_append.1 delivered with old | new
    · exact due'.later ev' member' o old
    · have same := List.mem_singleton.1 new
      injection same with client source
      rcases List.mem_cons.1 member with rfl | later
      · cases member'
      · -- another session or another stream
        exact absurd ⟨client.symm, source.symm⟩ (apart p later)

end Sent

theorem ordered_run (ordered : Ordered s) (stepped : RunStep s t) : Ordered t := by
  have busy := ordered.work
  cases stepped with
  | applied work streams =>
      rw [work] at busy
      exact ordered.turn (w := .delivering _) busy.todo _
  | silent work streams found silent after =>
      rw [work] at busy
      have rest := (busy.advance streams).1.drop
      refine ordered.turnHeap ?_ found (evolves_applyBegin _ _)
      rcases after with rfl | ⟨err, rfl⟩
      · exact rest
      · exact rest.afterError err
  | cached work streams found moved =>
      rw [work] at busy
      exact ordered.turnHeap (w := .appending _ _ _ _) (busy.advance streams) found
        (evolves_applyBegin _ _)
  | appended work found appended =>
      rw [work] at busy
      exact ordered_append ordered busy.1 busy.2 found appended
  | unappended work =>
      rw [work] at busy
      exact ordered.turn (busy.1.drop.afterError _) _
  | notified work =>
      rw [work] at busy
      exact ordered.turn (w := .applying _) busy _
  | notify work after =>
      rw [work] at busy
      refine ordered.turn ?_ _
      rcases after with rfl | rfl <;> exact busy
  | tell work found =>
      rw [work] at busy
      exact ordered.turn (w := .notifying _ _ _ _) busy _
  | finish work => exact ordered.turn (w := .idle) trivial _
  | deliver work after =>
      rw [work] at busy
      refine ordered.turn ?_ _
      rcases after with rfl | rfl
      · exact busy
      · exact busy.tail
  | delivered work done =>
      rw [work] at busy
      exact ordered.turn (w := .delivering _) busy.tail _
  | sent work next found noted =>
      rw [work] at busy
      rcases noted with rfl | rfl
      · exact ordered_sent (s := s) _ ordered busy next
      · rw [List.append_nil]
        exact ordered.turn (w := .sending _ _ _) (busy.sent next) _
  | slow work found =>
      rw [work] at busy
      exact ordered.turn (w := .leaving _ _ (.delivering _)) busy.tail _
  | clear work | broadcast work _ | unwarned work _ =>
      rw [work] at busy
      cases busy
  | bye work found =>
      rw [work] at busy
      exact ordered.turn (w := .parting _ _) busy _
  | parted work =>
      rw [work] at busy
      exact ordered.turn busy.work _

/-! ## Every step -/

theorem mem_copied {order : List String} {key : String} {a : Nat} :
    (key, a) ∈ s.copied order ↔ key ∈ order ∧ s.streams.lookup key = some a := by
  constructor
  · intro member
    obtain ⟨key', listed, found⟩ := List.mem_filterMap.1 member
    obtain ⟨a', held, same⟩ := Option.map_eq_some_iff.1 found
    cases same
    exact ⟨listed, held⟩
  · rintro ⟨listed, held⟩
    exact List.mem_filterMap.2 ⟨key, listed, by rw [held]; rfl⟩

theorem nodup_copied {order : List String} (distinct : order.Nodup) :
    ((s.copied order).map Prod.fst).Nodup := by
  rw [State.copied, List.map_filterMap]
  refine distinct.filterMap fun key key' found first second => ?_
  rw [Option.mem_def, Option.map_map] at first second
  obtain ⟨_, _, rfl⟩ := Option.map_eq_some_iff.1 first
  obtain ⟨_, _, rfl⟩ := Option.map_eq_some_iff.1 second
  rfl

theorem nodup_listed (s : State C) : s.listed.Nodup := List.nodup_range.filter _

section Stored

variable {e : Ev C} {j : Nat} {c c' : Client C} {d : Definition C} {inst : Instance C} {lsn : LSN}
  {rows : List Row} {notes : List (Note C)}

theorem storesOnce_session (found : s.clients[j]? = some c)
    (phase : c.phase = .loaded d inst lsn rows) :
    StoresOnce u s (.session j) = true ↔ u.key d c.session.claims ∉ s.streams := by
  simp [StoresOnce, found, phase]

theorem undisturbed_client (acts : c.Acts u s e j c' notes) :
    Undisturbed s { s.setClient j c' with trace := s.trace ++ notes } :=
  ⟨fun _ _ held => held, .refl _, notes, rfl, fun n member _ _ _ same =>
    acts.notes n member (by rw [same]; trivial)⟩

theorem undisturbed_store (found : s.clients[j]? = some c)
    (phase : c.phase = .loaded d inst lsn rows) (once : StoresOnce u s (.session j) = true) :
    Undisturbed s (s.store u j c d inst lsn rows) := by
  have fresh := (storesOnce_session found phase).1 once
  refine ⟨fun key a held => ?_, grows_append _ _, [], (List.append_nil _).symm, by simp⟩
  have other : key ≠ u.key d c.session.claims := by
    rintro rfl
    exact fresh (Finmap.mem_iff.2 ⟨a, held⟩)
  simp only [State.store, KeyMap.lookup_insert_eq, if_neg other]
  exact held

end Stored

/-- The streams are instances of the heap. -/
theorem valid_step {e : Ev C} (valid : ∀ key a, s.streams.lookup key = some a → a < s.heap.length)
    (stepped : step u s e = some t) :
    ∀ key a, t.streams.lookup key = some a → a < t.heap.length := by
  have all : AllStreams (fun _ => True) s := fun key a held =>
    ⟨_, List.getElem?_eq_getElem (valid key a held), trivial⟩
  intro key a held
  obtain ⟨inst, found, -⟩ := allStreams_step all (fun _ _ _ _ => trivial)
    (fun _ _ _ _ _ _ _ _ _ => trivial) stepped key a held
  exact (List.getElem?_eq_some_iff.1 found).1

theorem ordered_step {e : Ev C} (calm : Calm e) (ordered : Ordered s)
    (once : StoresOnce u s e = true) (stepped : step u s e = some t) : Ordered t := by
  cases step_spec stepped with
  | connect conn _ => exact ordered.turn ordered.work _
  | background quiet aside =>
      cases aside with
      | buffer clients => exact ordered.turn ordered.work _
      | copy _ _ distinct keys perm =>
          refine ordered.turn (w := .applying _) ⟨?_, ?_, ?_, by simp⟩ _
          · exact perm.nodup_iff.2 (nodup_listed s)
          · exact fun key a member => (mem_copied.1 member).2
          · simpa using nodup_copied distinct
      | recover event _ => exact absurd event (calm _)
      | sweep clients _ _ => exact ordered.turn (w := .leaving _ _ .idle) trivial _
      | run _ ran => exact ordered_run ordered ran
  | client _ found acts =>
      have same := undisturbed_client acts
      exact ordered.keep same ordered.valid (same.work ordered.work)
  | store event found phase =>
      subst event
      have same := undisturbed_store found phase once
      exact ordered.keep same (valid_step ordered.valid stepped) (same.work ordered.work)

/-- Streams are kept and instances grow. -/
def Keeps (s t : State C) : Prop :=
  (∀ key a, s.streams.lookup key = some a → t.streams.lookup key = some a) ∧ Grows s.heap t.heap

theorem keeps_step {e : Ev C} (ordered : Ordered s) (once : StoresOnce u s e = true)
    (stepped : step u s e = some t) : Keeps s t := by
  cases step_spec stepped with
  | connect conn _ => exact ⟨fun _ _ held => held, .refl _⟩
  | background quiet _ =>
      rcases quiet.streams with same | ⟨clearing, -⟩
      · exact ⟨fun _ _ held => same ▸ held, quiet.heap⟩
      · have busy := ordered.work
        rw [clearing] at busy
        cases busy
  | client _ _ => exact ⟨fun _ _ held => held, .refl _⟩
  | store event found phase =>
      subst event
      have same := undisturbed_store found phase once
      exact ⟨same.streams, same.heap⟩

/-- A step that finds its key taken puts another instance there. -/
theorem not_kept_step {e : Ev C}
    (valid : ∀ key a, s.streams.lookup key = some a → a < s.heap.length)
    (twice : StoresOnce u s e ≠ true) (stepped : step u s e = some t) : ¬ Kept s t := by
  cases e with
  | session j =>
      simp only [StoresOnce] at twice
      split at twice
      · exact absurd rfl twice
      · next c found =>
          split at twice
          · next d inst lsn rows phase =>
              have taken : u.key d c.session.claims ∈ s.streams := by simpa using twice
              obtain ⟨a, held⟩ := Finmap.mem_iff.1 taken
              simp only [step, State.sessionStep, found, Option.bind_eq_bind, Option.bind_some,
                phase] at stepped
              cases stepped
              intro kept
              obtain ⟨stays, -⟩ := kept _ a held
              simp only [State.store, KeyMap.lookup_insert_eq, if_true, Option.some.injEq] at stays
              have inside := valid _ a held
              omega
          · exact absurd rfl twice
  | _ => exact absurd rfl twice

/-! ## Runs -/

section Runs

variable {es : List (Ev C)}

theorem Keeps.trans {a b c : State C} (first : Keeps a b) (second : Keeps b c) : Keeps a c :=
  ⟨fun key i held => second.1 key i (first.1 key i held), first.2.trans second.2⟩

theorem Keeps.kept (keeps : Keeps s t)
    (valid : ∀ key a, s.streams.lookup key = some a → a < s.heap.length) : Kept s t := by
  intro key a held
  have found := List.getElem?_eq_getElem (valid key a held)
  obtain ⟨inst', found', evolves⟩ := keeps.2 a _ found
  refine ⟨keeps.1 key a held, _, inst', found, found', fun ch => ?_⟩
  rw [Instance.skips, Instance.skips, evolves.hasSnapshot, evolves.snapshotLSN]

theorem keeps_run (calm : ∀ e ∈ es, Calm e)
    (once : (machine u).Meets (fun s e => StoresOnce u s e = true) s es) (ordered : Ordered s)
    (ran : (machine u).run s es = some t) : Ordered t ∧ Keeps s t := by
  induction es generalizing s with
  | nil =>
      cases ran
      exact ⟨ordered, fun _ _ held => held, .refl _⟩
  | cons e es ih =>
      obtain ⟨v, stepped, rest⟩ := Machine.run_cons.1 ran
      obtain ⟨here, later⟩ := once v stepped
      have next := ordered_step (calm e List.mem_cons_self) ordered here stepped
      obtain ⟨last, keeps⟩ := ih (fun e' member => calm e' (List.mem_cons_of_mem _ member)) later
        next rest
      exact ⟨last, (keeps_step ordered here stepped).trans keeps⟩

theorem storesOnce_of_kept
    (valid : ∀ key a, s.streams.lookup key = some a → a < s.heap.length)
    (kept : ∀ es₁ es₂ v t, es₁ ++ es₂ <+: es → (machine u).run s es₁ = some v →
      (machine u).run v es₂ = some t → Kept v t) :
    (machine u).Meets (fun s e => StoresOnce u s e = true) s es := by
  induction es generalizing s with
  | nil => trivial
  | cons e es ih =>
      intro v stepped
      have one : (machine u).run s [e] = some v := Machine.run_cons.2 ⟨v, stepped, rfl⟩
      constructor
      · by_contra twice
        refine not_kept_step valid twice stepped (kept [] [e] s v ?_ rfl one)
        exact ⟨es, rfl⟩
      · refine ih (valid_step valid stepped) fun es₁ es₂ w t front ran ran' => ?_
        refine kept (e :: es₁) es₂ w t ?_ (Machine.run_cons.2 ⟨v, stepped, ran⟩) ran'
        exact List.prefix_cons_inj e |>.2 front

end Runs

/-! ## First subscriptions one at a time -/

/-- A stream that is found can serve the request: the resume offset is not negative, and a
positive one is not asked of an empty log. -/
def Serves (s : State C) : Ev C → Bool
  | .session j =>
      match s.clients[j]? with
      | none => true
      | some c =>
          match c.phase with
          | .found _ resumeAt a =>
              resumeAt = 0 ∨ 0 < resumeAt ∧ (s.heap[a]?).any fun inst => inst.log.events ≠ []
          | _ => true
  | _ => true

/-- The key of the stream that the client has a snapshot of its own for. -/
def Client.loading (u : Setup C) (c : Client C) : Option String :=
  match c.phase with
  | .bound d _ | .loaded d _ _ _ => some (u.key d c.session.claims)
  | _ => none

/-- A first subscription does not start while another one to the same stream is under way. -/
def Alone (u : Setup C) (s : State C) : Ev C → Bool
  | .session j =>
      match s.clients[j]? with
      | none => true
      | some c =>
          match c.phase with
          | .resume d _ =>
              u.key d c.session.claims ∈ s.streams ∨
                ∀ c' ∈ s.clients, c'.loading u ≠ some (u.key d c.session.claims)
          | _ => true
  | _ => true

/-- No first subscription will find its key taken. -/
structure Exclusive (u : Setup C) (s : State C) : Prop where
  granted : ∀ c ∈ s.clients, ∀ d, c.phase ≠ .refused d
  free : ∀ c ∈ s.clients, ∀ key, c.loading u = some key → key ∉ s.streams
  one : ∀ (i j : Nat) (c c' : Client C) (key : String), s.clients[i]? = some c →
    s.clients[j]? = some c' → c.loading u = some key → c'.loading u = some key → i = j

/-- What a step of a client's goroutine can do to the snapshots under way: it starts one only
of a stream that no one has. -/
structure Enters (u : Setup C) (s : State C) (c c' : Client C) : Prop where
  granted : ∀ d, c'.phase ≠ .refused d
  loading : ∀ key, c'.loading u = some key → c.loading u = some key ∨
    key ∉ s.streams ∧ ∀ other ∈ s.clients, other.loading u ≠ some key

section Exclusive

variable {e : Ev C} {j : Nat} {c c' : Client C} {notes : List (Note C)}

theorem Enters.of_idle (granted : ∀ d, c'.phase ≠ .refused d) (loading : c'.loading u = none) :
    Enters u s c c' :=
  ⟨granted, fun key here => by rw [loading] at here; cases here⟩

/-- A stream that serves refuses no one. -/
theorem after_ne_none {l : Log} {resumeAt : Int} (held : l.events ≠ []) :
    l.after resumeAt ≠ none := by
  rw [l.after_eq_filter held]
  exact Option.some_ne_none _

theorem enters_bound {d : Definition C} {inst : Instance C} (conn : Conn Sent)
    (exclusive : Exclusive u s) (serves : Serves s (.session j) = true)
    (alone : Alone u s (.session j) = true) (found : s.clients[j]? = some c)
    (takes : c.phase.Takes (s.streams.lookup (u.key d c.session.claims)) d) :
    Enters u s c { c.withConn conn with phase := .bound d inst } := by
  refine ⟨by rintro d' ⟨⟩, fun key same => .inr ?_⟩
  obtain rfl : u.key d c.session.claims = key := Option.some.inj same
  cases phase : c.phase with
  | resume d' resumeAt =>
      rw [phase] at takes
      obtain ⟨rfl, absent⟩ := takes
      have free : u.key d' c.session.claims ∉ s.streams :=
        fun held => by simp [Finmap.mem_iff, absent] at held
      simp only [Alone, found, phase, decide_eq_true_eq] at alone
      exact ⟨free, alone.resolve_left free⟩
  | found d' resumeAt a =>
      rw [phase] at takes
      simp only [Serves, found, phase, decide_eq_true_eq] at serves
      have negative := takes.2
      omega
  | refused d' => exact absurd phase (exclusive.granted c (List.mem_of_getElem? found) d')
  | _ =>
      rw [phase] at takes
      cases takes

theorem enters_next (exclusive : Exclusive u s) (serves : Serves s (.session j) = true)
    (alone : Alone u s (.session j) = true) (found : s.clients[j]? = some c)
    (next : c.Next u s.heap s.streams j c' notes) : Enters u s c c' := by
  cases next with
  | @unknown _ names conn phase _ _ =>
      have same : ({ c.withConn conn with names := names } : Client C).phase = .next := phase
      exact .of_idle (by rw [same]; rintro d ⟨⟩) (by rw [Client.loading, same])
  | bound conn takes _ => exact enters_bound conn exclusive serves alone found takes
  | refuse phase here positive absent =>
      simp only [Serves, found, phase, here, decide_eq_true_eq] at serves
      rcases serves with zero | ⟨-, held⟩
      · omega
      · exact absurd absent (after_ne_none (by simpa using held))
  | _ => exact .of_idle (by rintro d ⟨⟩) rfl

theorem enters_acts (exclusive : Exclusive u s) (serves : Serves s e = true)
    (alone : Alone u s e = true) (found : s.clients[j]? = some c)
    (acts : c.Acts u s e j c' notes) : Enters u s c c' := by
  cases acts with
  | take _ phase _ =>
      refine ⟨by rintro d ⟨⟩, fun key same => .inl ?_⟩
      rw [Client.loading, phase]
      exact same
  | next event next =>
      subst event
      exact enters_next exclusive serves alone found next
  | _ => exact .of_idle (by rintro d ⟨⟩) rfl

/-- A client whose snapshot under way is given up, kept or started alone. -/
theorem Exclusive.set (exclusive : Exclusive u s) (found : s.clients[j]? = some c)
    (enters : Enters u s c c') (trace : List (Note C)) :
    Exclusive u { s.setClient j c' with trace := trace } := by
  have here := List.mem_of_getElem? found
  refine ⟨fun c₁ member => ?_, fun c₁ member key same => ?_, ?_⟩
  · rcases List.mem_or_eq_of_mem_set member with old | rfl
    · exact exclusive.granted c₁ old
    · exact enters.granted
  · rcases List.mem_or_eq_of_mem_set member with old | rfl
    · exact exclusive.free c₁ old key same
    · rcases enters.loading key same with before | ⟨free, -⟩
      · exact exclusive.free c here key before
      · exact free
  · intro i i' c₁ c₂ key first second same same'
    rcases getElem?_set_cases first with ⟨rfl, rfl⟩ | ⟨other, old⟩
    · rcases getElem?_set_cases second with ⟨rfl, rfl⟩ | ⟨other', old'⟩
      · rfl
      · rcases enters.loading key same with before | ⟨-, alone⟩
        · exact exclusive.one _ _ c c₂ key found old' before same'
        · exact absurd same' (alone c₂ (List.mem_of_getElem? old'))
    · rcases getElem?_set_cases second with ⟨rfl, rfl⟩ | ⟨other', old'⟩
      · rcases enters.loading key same' with before | ⟨-, alone⟩
        · exact exclusive.one _ _ c₁ c key old found same before
        · exact absurd same (alone c₁ (List.mem_of_getElem? old))
      · exact exclusive.one i i' c₁ c₂ key old old' same same'

/-- The store of the only snapshot under way for its key. -/
theorem Exclusive.store {d : Definition C} {inst : Instance C} {lsn : LSN} {rows : List Row}
    (exclusive : Exclusive u s) (found : s.clients[j]? = some c)
    (phase : c.phase = .loaded d inst lsn rows) : Exclusive u (s.store u j c d inst lsn rows) := by
  have loading : c.loading u = some (u.key d c.session.claims) := by rw [Client.loading, phase]
  have idle : Enters u s c { c with phase := .stored d s.heap.length lsn rows } :=
    .of_idle (by rintro d ⟨⟩) rfl
  have set := exclusive.set found idle s.trace
  refine ⟨set.granted, fun c₁ member key same held => ?_, set.one⟩
  have free := set.free c₁ member key same
  rcases Finmap.mem_insert.1 held with rfl | held
  · obtain ⟨i, here⟩ := List.mem_iff_getElem?.1 member
    rcases getElem?_set_cases here with ⟨rfl, rfl⟩ | ⟨other, old⟩
    · cases same
    · exact other (exclusive.one i j c₁ c _ old found same loading)
  · exact free held

/-- A background step leaves the snapshots under way as they are. -/
theorem loading_of_control (same : c'.control = c.control) :
    c'.phase = c.phase ∧ c'.loading u = c.loading u := by
  simp only [Client.control, Prod.mk.injEq] at same
  obtain ⟨claims, phase, -⟩ := same
  exact ⟨phase, by rw [Client.loading, Client.loading, claims, phase]⟩

theorem exclusive_step (exclusive : Exclusive u s)
    (guard : Serves s e = true ∧ Alone u s e = true) (stepped : step u s e = some t) :
    Exclusive u t := by
  cases step_spec stepped with
  | @connect claims conn _ =>
      have fresh : ({ session := ⟨conn, claims, ∅, ∅⟩ } : Client C).loading u = none := rfl
      refine ⟨fun c member => ?_, fun c member key same => ?_, ?_⟩
      · rcases List.mem_append.1 member with old | new
        · exact exclusive.granted c old
        · rw [List.mem_singleton.1 new]
          rintro d ⟨⟩
      · rcases List.mem_append.1 member with old | new
        · exact exclusive.free c old key same
        · rw [List.mem_singleton.1 new, fresh] at same
          cases same
      · intro i i' c₁ c₂ key first second same same'
        rcases getElem?_concat_cases first with old | rfl
        · rcases getElem?_concat_cases second with old' | rfl
          · exact exclusive.one i i' c₁ c₂ key old old' same same'
          · cases same'
        · cases same
  | background quiet _ =>
      refine ⟨fun c member d => ?_, fun c member key same => ?_, ?_⟩
      · obtain ⟨c', old, control⟩ := quiet.control member
        rw [← (loading_of_control (u := u) control).1]
        exact exclusive.granted c' old d
      · obtain ⟨c', old, control⟩ := quiet.control member
        rw [← (loading_of_control control).2] at same
        have free := exclusive.free c' old key same
        rcases quiet.streams with kept | ⟨-, empty⟩
        · rwa [kept]
        · rw [empty]
          exact Finmap.notMem_empty
      · intro i i' c₁ c₂ key first second same same'
        obtain ⟨c₁', old, control⟩ := quiet.client first
        obtain ⟨c₂', old', control'⟩ := quiet.client second
        rw [← (loading_of_control control).2] at same
        rw [← (loading_of_control control').2] at same'
        exact exclusive.one i i' c₁' c₂' key old old' same same'
  | client _ found acts =>
      exact exclusive.set found (enters_acts exclusive guard.1 guard.2 found acts) _
  | store event found phase => exact exclusive.store found phase

theorem Exclusive.storesOnce (exclusive : Exclusive u s) (e : Ev C) :
    StoresOnce u s e = true := by
  cases e with
  | session j =>
      simp only [StoresOnce]
      split
      · rfl
      · next c found =>
          split
          · next d inst lsn rows phase =>
              have free := exclusive.free c (List.mem_of_getElem? found)
                (u.key d c.session.claims) (by rw [Client.loading, phase])
              exact decide_eq_true free
          · rfl
  | _ => rfl

theorem storesOnce_of_alone {es : List (Ev C)}
    (guards : (machine u).Meets (fun s e => Serves s e = true ∧ Alone u s e = true) {} es) :
    (machine u).Meets (fun s e => StoresOnce u s e = true) {} es := by
  have start : Exclusive u ({} : State C) := ⟨by simp, by simp, by simp⟩
  exact Machine.Meets.imp (I := Exclusive u)
    (fun _ _ _ exclusive guard stepped => exclusive_step exclusive guard stepped)
    (fun _ e _ exclusive _ _ => exclusive.storesOnce e) start guards

end Exclusive

/-- **A live stream is not replaced.**  Without slot-lag recovery, the streams of every
state of a run stay the same instances, with the same LSN gates, to the end of the run,
exactly if no store finds its key taken; and then the offsets that fan-out delivers to a
session from a stream only rise.  No store does if no resume offset is negative, none is
positive where the log is empty, and first subscriptions to one stream do not overlap. -/
theorem kept_iff_storesOnce (u : Setup C) (es : List (Ev C)) (calm : ∀ e ∈ es, Calm e) :
    ((machine u).Meets (fun s e => StoresOnce u s e = true) {} es ↔
        ∀ es₁ es₂ s t, es₁ ++ es₂ <+: es → (machine u).run {} es₁ = some s →
          (machine u).run s es₂ = some t → Kept s t) ∧
      ((machine u).Meets (fun s e => StoresOnce u s e = true) {} es →
        ∀ s, (machine u).run {} es = some s → s.trace.Pairwise Rising) ∧
      ((machine u).Meets (fun s e => Serves s e = true ∧ Alone u s e = true) {} es →
        (machine u).Meets (fun s e => StoresOnce u s e = true) {} es) := by
  have start : Ordered ({} : State C) := ⟨by simp, .nil, by simp, trivial⟩
  refine ⟨⟨fun once es₁ es₂ s t front ran ran' => ?_, storesOnce_of_kept start.valid⟩,
    fun once s ran => (keeps_run calm once start ran).1.rising, storesOnce_of_alone⟩
  obtain ⟨rest, rfl⟩ := front
  obtain ⟨once, -⟩ := once.split
  obtain ⟨early, late⟩ := once.split
  have calm₁ : ∀ e ∈ es₁, Calm e := fun e member => calm e (by simp [member])
  have calm₂ : ∀ e ∈ es₂, Calm e := fun e member => calm e (by simp [member])
  obtain ⟨ordered, -⟩ := keeps_run calm₁ early start ran
  exact (keeps_run calm₂ (late s ran) ordered ran').2.kept ordered.valid

namespace Negative

open Tasks

/-- Two changes after the first subscription. -/
def live : List (Ev Unit) :=
  subscribed ++ dispatched (inserted 2 20) 7 ++ dispatched (deleted 2 25) 7

/-- A second session that is served from the stream, and leaves. -/
def joined : List (Ev Unit) :=
  [.connect (), .subscribe 1 ["tasks"] none] ++ List.replicate 7 (.session 1) ++ [.leave 1]

/-- The offset delivered to the first session. -/
def offset : Note Unit → Option Int
  | .delivered 0 source o => if source = streamKey "tasks" "" then some o else none
  | _ => none

theorem rising_offsets {trace : List (Note Unit)} (rising : trace.Pairwise Rising) :
    (trace.filterMap offset).Pairwise (· < ·) := by
  have delivered : ∀ n o, offset n = some o → n = .delivered 0 (streamKey "tasks" "") o := by
    intro n o seen
    unfold offset at seen
    split at seen
    · split at seen
      · next same =>
          cases seen
          rw [same]
      · cases seen
    · cases seen
  refine List.pairwise_filterMap.2 (rising.imp fun rises o first o' second => ?_)
  exact rises 0 _ o o' (delivered _ o first) (delivered _ o' second)

def calm : Ev Unit → Bool
  | .recover _ => false
  | _ => true

theorem calm_of_all {es : List (Ev Unit)} (all : es.all calm = true) : ∀ e ∈ es, Calm e := by
  rintro e member listed rfl
  have quiet := List.all_eq_true.1 all _ member
  cases quiet

theorem kept_iff_storesOnce_joined :
    ∃ s, (machine setup).run {} (live ++ joined ++ dispatched (inserted 3 30) 7) = some s ∧
      s.trace.filterMap offset = [2, 3, 4] ∧ s.trace.Pairwise Rising := by
  have replay : ((machine setup).run {} (live ++ joined ++ dispatched (inserted 3 30) 7)).map
      (fun s => s.trace.filterMap offset) = some [2, 3, 4] := by
    decide +kernel
  obtain ⟨s, ran, seen⟩ := Option.map_eq_some_iff.1 replay
  obtain ⟨-, rising, once⟩ := kept_iff_storesOnce setup
    (live ++ joined ++ dispatched (inserted 3 30) 7) (calm_of_all (by decide))
  exact ⟨s, ran, seen, rising (once (by decide +kernel)) s ran⟩

/-- A second session with a negative resume offset; a third task is in its snapshot, but
fan-out has not come to it. -/
def replaced : List (Ev Unit) :=
  [.connect (), .hello 1 (KeyMap.ofList [("tasks", -1)]), .subscribe 1 ["tasks"] none,
    .session 1, .session 1, .session 1, .take 1 40 [task 1, task 3], .session 1]

/-- The third and the fourth task, dispatched to the first session. -/
def after : List (Ev Unit) :=
  [.copy (inserted 3 30) [streamKey "tasks" ""] [0, 1], .run, .run, .run] ++
    (.copy (inserted 4 50) [streamKey "tasks" ""] [0, 1] :: List.replicate 6 .run)

/-- The stream is replaced under the first session: the third task, which the old instance
would have let through, is withheld from it, and an offset comes twice. -/
theorem stream_replaced :
    ∃ s t, (machine setup).run {} live = some s ∧
      (machine setup).run s (replaced ++ after) = some t ∧
      s.streams.lookup (streamKey "tasks" "") = some 0 ∧
      t.streams.lookup (streamKey "tasks" "") = some 1 ∧
      (t.heap.map fun inst => inst.skips (inserted 3 30)) = [false, true] ∧
      t.trace.filterMap offset = [2, 3, 3] ∧ (∀ e ∈ live ++ replaced ++ after, Calm e) ∧
      ¬ Kept s t ∧ ¬ t.trace.Pairwise Rising := by
  have replay : (((machine setup).run {} live).bind fun s =>
      ((machine setup).run s (replaced ++ after)).map fun t =>
        (s.streams.lookup (streamKey "tasks" ""), t.streams.lookup (streamKey "tasks" ""),
          t.heap.map (fun inst => inst.skips (inserted 3 30)), t.trace.filterMap offset)) =
      some (some 0, some 1, [false, true], [2, 3, 3]) := by
    decide +kernel
  obtain ⟨s, ran, rest⟩ := Option.bind_eq_some_iff.1 replay
  obtain ⟨t, ran', seen⟩ := Option.map_eq_some_iff.1 rest
  simp only [Prod.mk.injEq] at seen
  obtain ⟨first, second, gates, offsets⟩ := seen
  refine ⟨s, t, ran, ran', first, second, gates, offsets, calm_of_all (by decide), fun kept => ?_,
    fun rising => ?_⟩
  · have stays := (kept _ 0 first).1
    rw [second] at stays
    cases stays
  · have rises := rising_offsets rising
    rw [offsets] at rises
    revert rises
    decide

end Negative

end Tether.Live
