/-
# Tether.Engine.Convergence — the pipeline can always catch up

`Pipeline` says what a stream may show in any state, and that it shows the current table
when nothing is on its way.  Here: from every state of a run whose first subscription joins
in time, steps other than commits lead to a state in which nothing is on its way
(`pipeline_converges`).  So no crash, no failed tick and no change left half applied takes
the stream to a place from which it could not come back.

The way there: a first subscription that is under way is registered (`registers`), the
consumer catches up (`Durability.catches_up`), fan-out finishes the change it is at
(`comes_idle`, by the measure `Work.remaining`), and one tick reads what is left (`reads`).
-/
import Tether.Engine.Pipeline
import Tether.Wal.CatchUp

namespace Tether.Pipeline

open Tether.Lib Tether.Wal Tether.Shape Tether.Durability

set_option autoImplicit false

variable {C : Type}

section Convergence

variable {plan : Plan C} {s t : State plan}

/-! ## Runs without commits -/

/-- There is a run from `s` to `t` in which the source commits nothing, and the first
subscription joins in time. -/
def Leads [LSNText] (s t : State plan) : Prop :=
  ∃ events, (machine plan).run s events = some t ∧ (machine plan).Meets Joins s events ∧
    ∀ c, Event.commit c ∉ events

theorem Leads.refl [LSNText] (s : State plan) : Leads s s :=
  ⟨[], rfl, trivial, fun _ => List.not_mem_nil⟩

theorem Leads.trans [LSNText] {s t u : State plan} (first : Leads s t) (second : Leads t u) :
    Leads s u := by
  obtain ⟨events, ran, joins, quiet⟩ := first
  obtain ⟨events', ran', joins', quiet'⟩ := second
  refine ⟨events ++ events', Machine.run_trans ran ran', joins.append ran joins',
    fun c member => ?_⟩
  rcases List.mem_append.1 member with here | here
  · exact quiet c here
  · exact quiet' c here

theorem Leads.step [LSNText] {e : Event plan} (stepped : step s e = some t) (joins : Joins s e)
    (other : ∀ c, e ≠ .commit c) : Leads s t :=
  ⟨[e], Machine.run_cons.2 ⟨t, stepped, rfl⟩, fun _ _ => ⟨joins, trivial⟩, fun c member =>
    other c (List.mem_singleton.1 member).symm⟩

/-- What only a commit changes. -/
structure SameSource (s t : State plan) : Prop where
  table : t.table = s.table
  txns : t.wal.txns = s.wal.txns
  stream : s.stream.isSome → t.stream.isSome

theorem sameSource_step [LSNText] {e : Event plan} (stepped : Pipeline.step s e = some t)
    (other : ∀ c, e ≠ .commit c) : SameSource s t := by
  cases e with
  | commit c => exact absurd rfl (other c)
  | wal e =>
      cases e with
      | source txn => cases stepped
      | _ =>
          obtain ⟨wal, moved, rfl⟩ := Option.map_eq_some_iff.1 stepped
          exact ⟨rfl, (wal_step (by rintro _ ⟨⟩) moved).1, id⟩
  | take lsn rows | load =>
      simp only [Pipeline.step] at stepped
      repeat' split at stepped
      all_goals first
        | cases stepped
          exact ⟨rfl, rfl, id⟩
        | cases stepped
  | register =>
      simp only [Pipeline.step] at stepped
      split at stepped
      · cases stepped
        exact ⟨rfl, rfl, fun _ => rfl⟩
      · cases stepped
  | tick =>
      simp only [Pipeline.step] at stepped
      repeat' split at stepped
      all_goals first
        | cases stepped
          exact ⟨rfl, rfl, id⟩
        | cases stepped
  | tickFails =>
      simp only [Pipeline.step, Option.ite_none_right_eq_some, Option.some.injEq] at stepped
      obtain ⟨-, rfl⟩ := stepped
      exact ⟨rfl, rfl, id⟩
  | row =>
      simp only [Pipeline.step] at stepped
      split at stepped
      · split at stepped
        · obtain ⟨stream, started, rfl⟩ := Option.map_eq_some_iff.1 stepped
          refine ⟨rfl, rfl, fun present => ?_⟩
          simp only [State.dispatch] at started
          split at started
          · next none =>
              rw [none] at present
              cases present
          · obtain ⟨st, -, rfl⟩ := Option.map_eq_some_iff.1 started
            rfl
        · split at stepped
          · cases stepped
            exact ⟨rfl, rfl, id⟩
          · cases stepped
      · cases stepped
  | stop =>
      simp only [Pipeline.step, Option.ite_none_right_eq_some, Option.some.injEq] at stepped
      obtain ⟨-, rfl⟩ := stepped
      exact ⟨rfl, rfl, id⟩
  | live e =>
      obtain ⟨st, -, rest⟩ := Option.bind_eq_some_iff.1 stepped
      obtain ⟨st', -, rfl⟩ := Option.map_eq_some_iff.1 rest
      exact ⟨rfl, rfl, fun _ => rfl⟩

theorem Leads.same [LSNText] (leads : Leads s t) : SameSource s t := by
  obtain ⟨events, ran, -, quiet⟩ := leads
  induction events generalizing s with
  | nil =>
      cases ran
      exact ⟨rfl, rfl, id⟩
  | cons e events ih =>
      obtain ⟨s₁, stepped, rest⟩ := Machine.run_cons.1 ran
      have first : SameSource s s₁ := sameSource_step stepped fun c same =>
        quiet c (same ▸ List.mem_cons_self)
      have later := ih rest fun c member => quiet c (List.mem_cons_of_mem _ member)
      exact ⟨later.table.trans first.table, later.txns.trans first.txns,
        fun present => later.stream (first.stream present)⟩

theorem Leads.inv [LSNText] (leads : Leads s t) (inv : Inv s) : Inv t := by
  obtain ⟨events, ran, joins, -⟩ := leads
  induction events generalizing s with
  | nil =>
      cases ran
      exact inv
  | cons e events ih =>
      obtain ⟨s₁, stepped, rest⟩ := Machine.run_cons.1 ran
      obtain ⟨here, later⟩ := joins s₁ stepped
      exact ih (inv_step inv here stepped) rest later

/-! ## The first subscription -/

/-- A snapshot that was taken in time can be loaded and registered. -/
theorem registers [LSNText] (inv : Inv s) : ∃ t, Leads s t ∧ t.joining = .idle ∧
    (s.joining.window ≠ none → t.stream.isSome) := by
  have registered : ∀ {s : State plan} {inst lsn base}, s.joining = .loaded inst lsn base →
      Leads s { s with joining := .idle, stream := some (plan.opened inst base) } := by
    intro s inst lsn base phase
    have stepped : Pipeline.step s .register =
        some { s with joining := .idle, stream := some (plan.opened inst base) } := by
      simp only [Pipeline.step, phase]
    exact .step stepped trivial (by rintro c ⟨⟩)
  have joining := inv.joining
  cases phase : s.joining with
  | idle => exact ⟨s, .refl s, phase, fun opened => absurd rfl opened⟩
  | loaded inst lsn base => exact ⟨_, registered phase, rfl, fun _ => rfl⟩
  | taken lsn rows base =>
      rw [phase] at joining
      obtain ⟨-, table, -, read, steady⟩ := joining
      obtain ⟨inst, seeded, -⟩ := loadSnapshot_reflects plan.distinct plan.keyed
        plan.fingerprint (n := lsn) read steady
      have loaded : Pipeline.step s .load = some { s with joining := .loaded inst lsn base } := by
        simp only [Pipeline.step, phase, seeded]
      exact ⟨_, (Leads.step loaded trivial (by rintro c ⟨⟩)).trans
        (registered (s := { s with joining := .loaded inst lsn base }) rfl), rfl, fun _ => rfl⟩

/-! ## The consumer -/

theorem leads_wal [LSNText] {events : List Durability.Event} {wal : Durability.State}
    (ran : (Durability.machine plan.types plan.exotic).run s.wal events = some wal)
    (quiet : ∀ txn, .source txn ∉ events) : Leads s { s with wal } := by
  induction events generalizing s with
  | nil =>
      cases ran
      exact .refl s
  | cons e events ih =>
      obtain ⟨wal₁, stepped, rest⟩ := Machine.run_cons.1 ran
      have first : Pipeline.step s (.wal e) = some { s with wal := wal₁ } := by
        cases e with
        | source txn => exact absurd List.mem_cons_self (quiet txn)
        | _ => exact congrArg (Option.map _) stepped
      refine (Leads.step first trivial (by rintro c ⟨⟩)).trans ?_
      exact ih (s := { s with wal := wal₁ }) rest
        fun txn member => quiet txn (List.mem_cons_of_mem _ member)

/-! ## The change fan-out is at -/

/-- The steps that fan-out has left in `dispatchChange`, at most. -/
def Work.remaining : Subscribe.Work → Nat
  | .idle => 0
  | .refused _ _ | .due _ => 1
  | .applied _ _ => 2
  | .cached _ _ => 3
  | .copied _ _ => 4

theorem fanOut_progress {u : Subscribe.Setup C} {st : Subscribe.State C}
    (busy : Work.isIdle st.work = false) :
    ∃ st', Subscribe.fanOutStep u st = some st' ∧
      Work.remaining st'.work < Work.remaining st.work := by
  cases work : st.work with
  | idle =>
      rw [work] at busy
      cases busy
  | copied ch listed =>
      simp only [Subscribe.fanOutStep, work]
      split <;> exact ⟨_, rfl, by simp [Work.remaining]⟩
  | cached m listed =>
      simp only [Subscribe.fanOutStep, work]
      split <;> exact ⟨_, rfl, by simp [Work.remaining]⟩
  | applied ev listed =>
      simp only [Subscribe.fanOutStep, work]
      refine ⟨_, rfl, ?_⟩
      dsimp only
      split <;> simp [Work.remaining]
  | due ev =>
      simp only [Subscribe.fanOutStep, work]
      exact ⟨_, rfl, by simp [Work.remaining]⟩
  | refused err listed =>
      simp only [Subscribe.fanOutStep, work]
      exact ⟨_, rfl, by simp [Work.remaining]⟩

/-- Fan-out comes to the end of `dispatchChange`, whatever the change does. -/
theorem finishes [LSNText] {st : Stream C} (here : s.stream = some st) :
    ∃ st', Leads s { s with stream := some st' } ∧ Work.isIdle st'.state.work = true := by
  induction left : Work.remaining st.state.work using Nat.strong_induction_on
    generalizing s st with
  | _ left ih =>
      cases busy : Work.isIdle st.state.work with
      | true =>
          refine ⟨st, ?_, busy⟩
          rw [← here]
          exact .refl s
      | false =>
          obtain ⟨state, stepped, less⟩ := fanOut_progress (u := st.setup) busy
          have first : Pipeline.step s (.live .fanOut) =
              some { s with stream := some { st with state } } := by
            simp only [Pipeline.step, here, Option.bind_some, Stream.liveStep, Stream.step,
              Subscribe.step, stepped, Option.map_some]
          obtain ⟨st', rest, idle⟩ := ih _ (left ▸ less)
            (s := { s with stream := some { st with state } }) rfl rfl
          exact ⟨st', (Leads.step first trivial (by rintro c ⟨⟩)).trans rest, idle⟩

/-- Only the stream moves. -/
theorem comes_idle [LSNText] (s : State plan) :
    ∃ stream, Leads s { s with stream } ∧ State.idle { s with stream } = true := by
  cases here : s.stream with
  | none =>
      refine ⟨none, ?_, rfl⟩
      rw [← here]
      exact .refl s
  | some st =>
      obtain ⟨st', leads, idle⟩ := finishes here
      exact ⟨some st', leads, idle⟩

/-! ## What is left in `change_log` -/

theorem dispatch_of_idle (idle : s.idle = true) (ch : Change) :
    ∃ stream, s.dispatch ch = some stream := by
  cases here : s.stream with
  | none => exact ⟨none, by rw [State.dispatch, here]⟩
  | some st =>
      have free : st.state.work = .idle := by
        rw [State.idle, here, Option.all_some] at idle
        cases work : st.state.work with
        | idle => rfl
        | _ =>
            rw [work] at idle
            cases idle
      simp only [State.dispatch, here, Stream.step, Subscribe.step, free]
      exact ⟨_, rfl⟩

/-- With no snapshot pending, a row can be dispatched. -/
theorem joins_row [LSNText] (joined : s.joining = .idle) : Joins s .row := by
  intro lsn window
  rw [joined] at window
  cases window

/-- A tick that is not disturbed dispatches all rows it has read. -/
theorem reads [LSNText] {rows : List LogRow} (batch : s.batch = some rows) (idle : s.idle = true)
    (joined : s.joining = .idle) (readable : ∀ r ∈ rows, ∃ ch, r.readBack = some ch) :
    ∃ t, Leads s t ∧ t.wal = s.wal ∧ t.idle = true ∧
      t.lastID = (rows.getLast?.map LogRow.id).getD s.lastID := by
  induction rows generalizing s with
  | nil => exact ⟨s, .refl s, rfl, idle, rfl⟩
  | cons r rows ih =>
      obtain ⟨ch, read⟩ := readable r List.mem_cons_self
      obtain ⟨stream, started⟩ := dispatch_of_idle idle ch
      have first : Pipeline.step s .row = some { s with
          stream, lastID := r.id, batch := some rows
          dispatched := s.dispatched ++ [(r.id, ch)] } := by
        simp only [Pipeline.step, batch, read, started, Option.map_some]
      obtain ⟨stream', finished, rests⟩ := comes_idle { s with
        stream, lastID := r.id, batch := some rows, dispatched := s.dispatched ++ [(r.id, ch)] }
      obtain ⟨t, leads, wal, idle', last⟩ := ih (s := { s with
        stream := stream', lastID := r.id, batch := some rows
        dispatched := s.dispatched ++ [(r.id, ch)] }) rfl rests joined
        fun r' member => readable r' (List.mem_cons_of_mem _ member)
      have row := Leads.step first (joins_row joined) (by rintro c ⟨⟩)
      refine ⟨t, (row.trans finished).trans leads, wal, idle', ?_⟩
      rw [last]
      cases rows with
      | nil => rfl
      | cons r' rows => rw [List.getLast?_cons_cons, List.getLast?_cons]; rfl

/-- With no tick under way, one tick reads everything. -/
theorem reads_all [LSNText] (inv : Inv s) (idle : s.idle = true) (joined : s.joining = .idle)
    (closed : s.batch = none) :
    ∃ t, Leads s t ∧ t.wal = s.wal ∧ t.idle = true ∧ ∀ r ∈ t.wal.db.rows, r.id ≤ t.lastID := by
  obtain ⟨c, follows⟩ := inv.follows
  have ticked : Pipeline.step s .tick =
      some { s with batch := some (s.wal.db.rows.filter fun r => s.lastID < r.id) } := by
    simp only [Pipeline.step, closed, if_pos idle]
  obtain ⟨t, leads, wal, idle', last⟩ := reads (s := { s with
      batch := some (s.wal.db.rows.filter fun r => s.lastID < r.id) }) rfl idle joined
    fun r member => by
      have parses := follows.db.parses r (List.mem_of_mem_filter member)
      rw [LogEntry.readBack, LSNText.parse_string parses]
      exact ⟨_, rfl⟩
  refine ⟨t, (Leads.step ticked trivial (by rintro c ⟨⟩)).trans leads, wal, idle',
    fun r member => ?_⟩
  rw [wal] at member
  rw [last]
  -- the rows are in the order of their ids, so the last one read is the last one there is
  have ordered := s.wal.db.ordered.sublist
    (List.filter_sublist (p := fun r : LogRow => decide (s.lastID < r.id)))
  generalize read : s.wal.db.rows.filter (fun r => decide (s.lastID < r.id)) = rows at ordered
  have listed : s.lastID < r.id → r ∈ rows := fun past =>
    read ▸ List.mem_filter.2 ⟨member, decide_eq_true past⟩
  rcases List.eq_nil_or_concat' rows with rfl | ⟨front, final, rfl⟩
  · exact Nat.le_of_not_lt fun past => absurd (listed past) List.not_mem_nil
  · rw [List.getLast?_concat]
    show r.id ≤ final.id
    have past : s.lastID < final.id := by
      have here : final ∈ s.wal.db.rows.filter (fun r => decide (s.lastID < r.id)) :=
        read ▸ List.mem_append_right _ List.mem_cons_self
      exact of_decide_eq_true (List.mem_filter.1 here).2
    by_cases behind : r.id ≤ s.lastID
    · exact behind.trans past.le
    · rcases List.mem_append.1 (listed (Nat.lt_of_not_le behind)) with early | same
      · exact ((List.pairwise_append.1 ordered).2.2 r early final List.mem_cons_self).le
      · rw [List.mem_singleton.1 same]

/-! ## The theorem -/

/-- With the first subscription out of the way, the consumer, fan-out and a tick bring all
there is to the stream. -/
theorem catchesUp [LSNText] (inv : Inv s) (joined : s.joining = .idle) (agree : Agree s.wal.txns)
    (fits : ∀ txn ∈ s.wal.txns, txn.Fits plan.types plan.exotic) :
    ∃ t, Leads s t ∧ t.Quiet := by
  obtain ⟨n, durable⟩ := inv.durable
  obtain ⟨events, wal, ran, quiet, -, holds⟩ := catches_up durable agree fits
  have first := leads_wal ran quiet
  obtain ⟨stream, second, idle⟩ := comes_idle { s with wal }
  -- a tick that is under way is given up
  have third : ∃ batch, Leads { s with wal, stream } { s with wal, stream, batch } ∧
      batch = none := by
    cases s.batch with
    | none => exact ⟨none, .refl _, rfl⟩
    | some rows =>
        exact ⟨none, Leads.step (e := .stop) (if_pos ⟨idle, rfl⟩) trivial (by rintro c ⟨⟩), rfl⟩
  obtain ⟨_, third, rfl⟩ := third
  have there := (first.trans second).trans third
  obtain ⟨t, fourth, same, idle', all⟩ := reads_all (there.inv inv) idle joined rfl
  exact ⟨t, there.trans fourth, same ▸ holds, all, idle'⟩

instance (txns : List Txn) : Decidable (Agree txns) :=
  inferInstanceAs (Decidable (∀ t ∈ txns, ∀ t' ∈ txns, ∀ item ∈ t.body, ∀ item' ∈ t'.body, _ → _))

end Convergence

namespace Tasks

attribute [local instance] Wal.Pglogrepl.hexadecimal

/-- Three transactions are committed; the consumer is inside the second one, whose rows
the snapshot has, fan-out has dispatched one row, and the instance is loaded but not
registered. -/
def interrupted : List (Event openTasks) :=
  [.commit first, .wal (.start 0)] ++ consume [tasks, users] 2 ++
    [.wal .ack, .tick, .row, .commit second, .take 20 both, .commit third, .load,
      .wal (.deliver .begin)]

end Tasks

end Tether.Pipeline
