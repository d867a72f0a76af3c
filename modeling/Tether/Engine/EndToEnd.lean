/-
# Tether.Engine.EndToEnd — from a commit at the source to the rows a client holds

`Pipeline` shows that a stream's cache is the filtered table after some of the
operations, `ClientView` that a client holds what the cache was at the offset it has
reached.  Together: after any first part of its messages the client holds the matching
rows of the table after some first part of the operations, later messages never take it
back to an earlier one, and it holds the rows of the table as it is now once nothing is on
its way (`client_shows_history`).

Each offset of the stream is given the number of operations its cache shows (`Dated`).
The runs are those in which the stream joins in time (`Joins`), a session that subscribes to
it is served in an orderly way (`Subscribe.orderly`) and a client that resumes has the rows
it claims to have (`Subscribe.Honest`).  That no
update changes the key of its row is not assumed: it follows from the key being the
table's (`Reflects.keepsKey`).
-/
import Tether.Engine.ClientView
import Tether.Engine.Pipeline

namespace Tether

open Lib Wal Shape

set_option autoImplicit false

variable {C : Type}

/-! ## Keys of the cache and keys of the table -/

namespace Shape

variable {exotic : Value → Option Json} {rel : Relation} {d : Definition C} {f : Filter}
  {n : LSN} {fp : String} {inst : Instance C} {t t' : Table rel} {ch : Change}

theorem Reflects.keyed (reflects : Reflects exotic d f n fp inst t)
    (keyed : d.withDefaults.primaryKey = rel.primaryKey) : inst.Keyed := by
  intro key row found
  have live : (inst.liveForm exotic).cache.lookup key = some (row.liveForm exotic) := by
    rw [Instance.liveForm, KeyMap.lookup_mapValues, found]
    rfl
  obtain ⟨visible, own⟩ := (reflects.mirrors.index key _).1 live
  have admitted := t.admitted _ (Table.mem_visible.1 visible).1
  have defn : inst.defn = d.withDefaults := reflects.mirrors.defn
  rw [← (reflects.steady key row found).pkKey_liveForm, defn, keyed, rel.pkKey_admitted admitted,
    own]

/-- **An update of the table keeps the key under which its row is cached.** -/
theorem Reflects.keepsKey (reflects : Reflects exotic d f n fp inst t)
    (distinct : rel.DistinctKeys) (keyed : d.withDefaults.primaryKey = rel.primaryKey)
    {op : RowOp} (stepped : t.step op = some t') (carried : Carries rel op ch)
    (live : ch.Live exotic) : inst.KeepsKey (.apply ch) := by
  intro isUpdate _ key cached found _
  cases op with
  | insert row => cases isUpdate.symm.trans carried.1
  | delete before => cases isUpdate.symm.trans carried.1
  | update before after =>
      have left : (RowOp.update before after).after = some after := rfl
      have own := Table.step_keyText stepped left
      have looked := reflects.mirrors.lookup_update (Table.clear_of_distinct distinct stepped f)
        keyed stepped carried
      simp only [Table.step, Option.dite_none_right_eq_some] at stepped
      obtain ⟨⟨present, ok', -⟩, -⟩ := stepped
      have ok := t.admitted before present
      rw [Instance.lookup_liveForm, found] at looked
      obtain ⟨named, held⟩ := Prod.mk.inj (Except.ok.inj looked)
      have liveRow : ∀ row : Option Row, row.map (Row.liveForm exotic) = row →
          ∀ r ∈ row, SteadyRow exotic inst.defn.primaryKey inst.filter r := by
        rintro row whole r rfl
        exact steady_of_live (Option.some.inj whole)
      have steady : SteadyRow exotic inst.defn.primaryKey inst.filter
          (patchRow cached ch.old ch.new) := by
        refine SteadyRow.patchRow ?_ (liveRow ch.old live.old) (liveRow ch.new live.new)
        rintro r rfl
        exact reflects.steady key r (Instance.lookup_ok found)
      -- the live form of the merged row is the row after the update
      have merged : (patchRow cached ch.old ch.new).liveForm exotic = after := by
        rw [patchRow_liveForm, live.old, live.new]
        refine patchRow_carried carried ok ok' ?_
        rw [held, Filter.select_some]
        split <;> simp
      have defn : inst.defn = d.withDefaults := reflects.mirrors.defn
      rw [← steady.pkKey_liveForm, merged, defn, keyed, rel.pkKey_admitted ok', own]
      exact congrArg Except.ok named.symm

end Shape

/-! ## The stream over time -/

namespace Pipeline

open Subscribe (view changes Begun Honest Keeps Chained Views)

section EndToEnd

variable {plan : Plan C} {s t : State plan} {held : Multiset Row}

theorem Turn.keeps {n : LSN} {ch : Change} {t t' : Table plan.rel} (turn : Turn plan n ch t t')
    {inst : Instance C}
    (reflects : Reflects plan.exotic plan.defn plan.filter n plan.fingerprint inst t)
    (passes : inst.skips ch = false) : inst.KeepsKey (.apply ch) := by
  have defn : inst.defn = plan.defn.withDefaults := reflects.mirrors.defn
  cases turn with
  | held nonzero inside _ =>
      have loaded : inst.hasSnapshot = true := reflects.mirrors.loaded
      have position : inst.snapshotLSN = n := reflects.mirrors.position
      simp [Instance.skips, loaded, position, nonzero, inside] at passes
  | foreign other _ =>
      intro _ mine
      rw [defn, other] at mine
      cases mine
  | carried op stepped carried live _ _ _ =>
      exact reflects.keepsKey plan.distinct plan.keyed stepped carried live

theorem StreamInv.keeps [LSNText] {st : Stream C} {n : LSN} (whole : History s)
    (inv : StreamInv s st n)
    (e : Subscribe.Ev) : Keeps st.state e := by
  cases e with
  | fanOut =>
      intro ch listed work passes
      obtain ⟨_, _, _, _, _, reflects, turn⟩ :=
        inv.turn whole (show Work.waiting st.state.work = some ch by rw [work]; rfl)
      exact turn.keeps reflects passes
  | connect | copy | session | pump => trivial

/-- Every mark of the stream is the table after some operations, later marks after
more of them. -/
def Dated (s : State plan) (marks : KeyMap Int (KeyMap String Row)) : Prop :=
  ∃ position : Int → Nat, (∀ o o', o ≤ o' → position o ≤ position o') ∧
    (∀ o, position o ≤ s.shown) ∧ ∀ o cache, marks.lookup o = some cache →
      ∃ table, Replica.tableAt s.start s.ops (position o) = some table ∧
        cache.values.map (Row.liveForm plan.exotic) = (table.visible plan.filter).val

variable {marks : KeyMap Int (KeyMap String Row)}

/-- Commits and what is shown later leave the dates as they are. -/
theorem Dated.later (dated : Dated s marks) (bound : s.shown ≤ s.ops.length)
    (start : t.start = s.start) (forward : s.shown ≤ t.shown) {more : List (Option RowOp)}
    (ops : t.ops = s.ops ++ more) : Dated t marks := by
  obtain ⟨position, mono, within, shows⟩ := dated
  refine ⟨position, mono, fun o => (within o).trans forward, fun o cache found => ?_⟩
  obtain ⟨table, at_o, rows⟩ := shows o cache found
  refine ⟨table, ?_, rows⟩
  rw [start, ops, tableAt_append ((within o).trans bound)]
  exact at_o

/-- A new mark past the old ones is the table as it is shown now. -/
theorem Dated.insert (dated : Dated s marks) {last : Int}
    (older : ∀ o cache, marks.lookup o = some cache → o ≤ last) {cache : KeyMap String Row}
    {table : Table plan.rel} (shown : Replica.tableAt s.start s.ops s.shown = some table)
    (rows : cache.values.map (Row.liveForm plan.exotic) = (table.visible plan.filter).val) :
    Dated s (marks.insert (last + 1) cache) := by
  obtain ⟨position, mono, within, shows⟩ := dated
  refine ⟨fun o => if o ≤ last then position o else s.shown, fun o o' le => ?_, fun o => ?_,
    fun o c found => ?_⟩
  · dsimp only
    split_ifs with first second second
    · exact mono o o' le
    · exact within o
    · exact absurd (le.trans second) first
    · exact le_rfl
  · dsimp only
    split
    · exact within o
    · exact le_rfl
  · rw [KeyMap.lookup_insert_eq] at found
    split at found
    · next same =>
        cases found
        have past : ¬ o ≤ last := by omega
        simp only [if_neg past]
        exact ⟨table, shown, rows⟩
    · simp only [if_pos (older o c found)]
      exact shows o c found

/-- A step of the stream marks at most the next offset. -/
theorem marks_step {u : Subscribe.Setup C} {s t : Subscribe.State C} {e : Subscribe.Ev}
    (stepped : Subscribe.step u s e = some t) :
    t.marks = s.marks ∨ t.marks = s.marks.insert (s.inst.log.lastOffset + 1) t.inst.cache := by
  cases e with
  | fanOut =>
      simp only [Subscribe.step, Subscribe.fanOutStep] at stepped
      split at stepped
      · cases stepped
      · split at stepped <;> cases stepped <;> exact .inl rfl
      · split at stepped
        · cases stepped
          exact .inl rfl
        · next ev log appended =>
            cases stepped
            refine .inr ?_
            dsimp only
            rw [(Subscribe.append_lastOffset appended).2]
      all_goals
        cases stepped
        exact .inl rfl
  | connect =>
      simp only [Subscribe.step] at stepped
      split at stepped <;> cases stepped
      exact .inl rfl
  | copy ch =>
      simp only [Subscribe.step] at stepped
      split at stepped <;> cases stepped
      exact .inl rfl
  | pump =>
      obtain ⟨conn, -, rfl⟩ := Option.map_eq_some_iff.1 stepped
      exact .inl rfl
  | session =>
      simp only [Subscribe.step, Subscribe.sessionStep] at stepped
      repeat' split at stepped
      all_goals first
        | cases stepped
          exact .inl rfl
        | cases stepped

/-! ## What a step of the pipeline does to its stream -/

inductive StreamStep (s t : State plan) (e : Event plan) : Prop where
  | same : t.stream = s.stream → StreamStep s t e
  | opens (inst : Instance C) (base : Nat) : t.stream = some (plan.opened inst base) →
      StreamStep s t e
  | moves (st : Stream C) (e' : Subscribe.Ev) (state : Subscribe.State C) : s.stream = some st →
      Subscribe.step st.setup st.state e' = some state → t.stream = some { st with state } →
      ((∃ ch, e' = .copy ch) ∨ e = .live e') → StreamStep s t e

theorem step_stream [LSNText] {e : Event plan} (stepped : step s e = some t) :
    StreamStep s t e := by
  cases e with
  | commit c =>
      simp only [step] at stepped
      split at stepped
      · obtain ⟨table, -, rest⟩ := Option.bind_eq_some_iff.1 stepped
        obtain ⟨wal, -, rest⟩ := Option.bind_eq_some_iff.1 rest
        cases rest
        exact .same rfl
      · cases stepped
  | wal e =>
      cases e with
      | source txn => cases stepped
      | _ =>
          obtain ⟨wal, -, rfl⟩ := Option.map_eq_some_iff.1 stepped
          exact .same rfl
  | take lsn rows | load =>
      simp only [step] at stepped
      repeat' split at stepped
      all_goals first
        | cases stepped
          exact .same rfl
        | cases stepped
  | register =>
      simp only [step] at stepped
      split at stepped
      · next inst lsn base _ =>
          cases stepped
          exact .opens inst base rfl
      · cases stepped
  | tick =>
      simp only [step] at stepped
      repeat' split at stepped
      all_goals first
        | cases stepped
          exact .same rfl
        | cases stepped
  | tickFails =>
      simp only [step, Option.ite_none_right_eq_some, Option.some.injEq] at stepped
      obtain ⟨-, rfl⟩ := stepped
      exact .same rfl
  | row =>
      simp only [step] at stepped
      split at stepped
      · split at stepped
        · next ch _ =>
            obtain ⟨stream, started, rfl⟩ := Option.map_eq_some_iff.1 stepped
            simp only [State.dispatch] at started
            split at started
            · next none =>
                cases started
                exact .same none.symm
            · next st present =>
                obtain ⟨st', copied, rfl⟩ := Option.map_eq_some_iff.1 started
                obtain ⟨state, ran, rfl⟩ := Option.map_eq_some_iff.1 copied
                exact .moves st (.copy ch) state present ran rfl (.inl ⟨ch, rfl⟩)
        · split at stepped
          · cases stepped
            exact .same rfl
          · cases stepped
      · cases stepped
  | stop =>
      simp only [step, Option.ite_none_right_eq_some, Option.some.injEq] at stepped
      obtain ⟨-, rfl⟩ := stepped
      exact .same rfl
  | live e =>
      obtain ⟨st, here, rest⟩ := Option.bind_eq_some_iff.1 stepped
      obtain ⟨st', moved, rfl⟩ := Option.map_eq_some_iff.1 rest
      obtain ⟨state, ran, rfl⟩ := Stream.liveStep_eq moved
      exact .moves st e state here ran rfl (.inr rfl)

/-! ## The invariant over the whole pipeline -/

/-- The session is served in an orderly way, and a client that resumes has the rows it
claims to have. -/
def Calm (held : Multiset Row) (s : State plan) : Event plan → Prop
  | .live e => ∀ st, s.stream = some st →
      Subscribe.orderly st.setup st.state e = true ∧ Honest st.setup held st.state e
  | _ => True

structure Tracks (held : Multiset Row) (s : State plan) (st : Stream C) : Prop where
  session : Subscribe.Inv st.state
  chained : Chained st.state
  views : Views st.setup held st.state
  dated : Dated s st.state.marks

structure Whole [LSNText] (held : Multiset Row) (s : State plan) : Prop where
  pipeline : Inv s
  stream : ∀ st, s.stream = some st → Tracks held s st

theorem shown_of_stream {st : Stream C} (here : s.stream = some st) :
    s.shown = st.shown s.dispatched.length := by
  rw [State.shown, here]
  rfl

theorem Inv.stream_defn [LSNText] (inv : Inv s) {st : Stream C} (here : s.stream = some st) :
    st.state.inst.defn = plan.defn.withDefaults := by
  obtain ⟨n, own⟩ := inv.stream st here
  obtain ⟨table, -, reflects⟩ := own.reflects
  exact reflects.mirrors.defn

theorem tracks_opened [LSNText] {inst : Instance C} {base : Nat} (inv : Inv s)
    (here : s.stream = some (plan.opened inst base)) :
    Tracks held s (plan.opened inst base) := by
  obtain ⟨n, own⟩ := inv.stream _ here
  obtain ⟨table, at_k, reflects⟩ := own.reflects
  refine ⟨Subscribe.inv_start _, Subscribe.chained_start (reflects.keyed plan.keyed),
    Subscribe.views_start _ held, fun _ => s.shown, monotone_const, fun _ => le_rfl,
    fun o cache found => ⟨table, ?_, ?_⟩⟩
  · rw [shown_of_stream here]
    exact at_k
  · have only : cache = inst.cache := by
      simp only [Plan.opened, Subscribe.Setup.start, KeyMap.lookup_insert_eq] at found
      split at found
      · cases found
        rfl
      · simp at found
    rw [only]
    exact reflects.materialized

theorem Tracks.moves [LSNText] {st : Stream C} {e : Subscribe.Ev} {state : Subscribe.State C}
    (tracks : Tracks held s st) (inv : Inv s) (inv' : Inv t) (here : s.stream = some st)
    (here' : t.stream = some { st with state }) (start : t.start = s.start)
    (forward : s.shown ≤ t.shown) {more : List (Option RowOp)} (ops : t.ops = s.ops ++ more)
    (calm : Subscribe.orderly st.setup st.state e = true) (honest : Honest st.setup held st.state e)
    (ran : Subscribe.step st.setup st.state e = some state) :
    Tracks held t { st with state } := by
  obtain ⟨n, own⟩ := inv.stream st here
  obtain ⟨n', own'⟩ := inv'.stream _ here'
  have keeps : Keeps st.state e := own.keeps inv.toHistory e
  refine ⟨Subscribe.inv_step tracks.session calm ran,
    Subscribe.chained_step tracks.session tracks.chained keeps ran,
    Subscribe.views_step tracks.session tracks.chained tracks.views calm honest ran, ?_⟩
  have dated := tracks.dated.later inv.shown_le start forward ops
  rcases marks_step ran with same | grown
  · dsimp only
    rw [same]
    exact dated
  · obtain ⟨table, at_k, reflects⟩ := own'.reflects
    dsimp only
    rw [grown]
    refine dated.insert tracks.session.marked ?_ reflects.materialized
    rw [shown_of_stream here']
    exact at_k

theorem whole_step [LSNText] {e : Event plan} (whole : Whole held s) (joins : Joins s e)
    (calm : Calm held s e) (stepped : step s e = some t) : Whole held t := by
  have inv := inv_step whole.pipeline joins stepped
  obtain ⟨start, forward, grown⟩ := step_shown whole.pipeline stepped
  obtain ⟨more, ops⟩ : ∃ more, t.ops = s.ops ++ more := by
    rcases grown with same | ⟨c, more, -⟩
    · exact ⟨[], by rw [same, List.append_nil]⟩
    · exact ⟨c.ops, more⟩
  refine ⟨inv, fun st here => ?_⟩
  cases step_stream stepped with
  | same kept =>
      have tracks := whole.stream st (kept ▸ here)
      exact { tracks with
        dated := tracks.dated.later whole.pipeline.shown_le start forward ops }
  | opens inst base opened =>
      cases opened.symm.trans here
      exact tracks_opened inv opened
  | moves st' e' state before ran after cause =>
      cases after.symm.trans here
      have tracks := whole.stream st' before
      rcases cause with ⟨ch, rfl⟩ | rfl
      · exact tracks.moves whole.pipeline inv before after start forward ops (e := .copy ch) rfl
          trivial ran
      · obtain ⟨calm, honest⟩ := calm st' before
        exact tracks.moves whole.pipeline inv before after start forward ops calm honest ran

/-! ## What the client holds -/

/-- The rows a client holds after some of its messages, as JSON shows them. -/
def Stream.clientRows (plan : Plan C) (held : Multiset Row) (messages : List Sent) :
    Multiset Row :=
  (view plan.defn.withDefaults.primaryKey held messages).map (Row.liveForm plan.exotic)

structure State.Serves (held : Multiset Row) (s : State plan) : Prop where
  /-- The rows after each first part of the messages are those of the table after some
  first part of the operations, and never go back. -/
  history : ∀ st, s.stream = some st → st.state.sub.read ≠ none →
    ∃ position : Nat → Nat, Monotone position ∧
      ∀ messages, messages <+: st.state.conn.accepted → Begun st.setup messages →
        position (changes messages) ≤ s.shown ∧
          ∃ table, Replica.tableAt s.start s.ops (position (changes messages)) = some table ∧
            Stream.clientRows plan held messages = (table.visible plan.filter).val
  /-- With all messages, and nothing on its way, they are those of the table. -/
  current : ∀ st, s.stream = some st → ∀ start upTo, st.state.sub = .subscribed start upTo →
    st.state.conn.closed = false → s.Quiet →
      Stream.clientRows plan held st.state.conn.accepted = (s.table.visible plan.filter).val

theorem Whole.serves [LSNText] (whole : Whole held s) : s.Serves held where
  history := by
    intro st here reads
    obtain ⟨⟨start, upTo⟩, read⟩ := Option.ne_none_iff_exists'.1 reads
    have tracks := whole.stream st here
    have defn := whole.pipeline.stream_defn here
    obtain ⟨position, mono, within, shows⟩ := tracks.dated
    refine ⟨fun k => position (start + k), fun k k' le => mono _ _ (by omega),
      fun messages first begun => ⟨within _, ?_⟩⟩
    obtain ⟨cache, found, same⟩ := tracks.views.atOffset start upTo read messages first begun
    obtain ⟨table, at_k, rows⟩ := shows _ cache found
    refine ⟨table, at_k, ?_⟩
    rw [Stream.clientRows, ← defn, same, rows]
  current := by
    intro st here start upTo sub opened quiet
    have tracks := whole.stream st here
    have defn := whole.pipeline.stream_defn here
    have idle : st.state.work = .idle := by
      have idle := quiet.idle
      rw [State.idle, here, Option.all_some] at idle
      cases work : st.state.work with
      | idle => rfl
      | _ =>
          rw [work] at idle
          cases idle
    have shows := whole.pipeline.shows
    obtain ⟨table, at_k, rows⟩ := shows.rows st here
    have now := (shows.current (by rw [here]; rfl) quiet).2
    cases at_k.symm.trans now
    have mirrored := (tracks.views.mirrored tracks.session).current start upTo sub opened
      (by rw [idle]; rfl) (by simp [idle])
    rw [Stream.clientRows, ← defn, mirrored, rows]

instance (held : Multiset Row) (s : State plan) : (e : Event plan) → Decidable (Calm held s e)
  | .live e => inferInstanceAs (Decidable (∀ st ∈ s.stream,
      Subscribe.orderly st.setup st.state e = true ∧ Honest st.setup held st.state e))
  | .commit _ | .wal _ | .take _ _ | .load | .register | .tick | .tickFails | .row | .stop =>
      .isTrue trivial

end EndToEnd

namespace Tasks

attribute [local instance] Wal.Pglogrepl.hexadecimal

/-- A client subscribes between the snapshot and the third commit. -/
def served : List (Event openTasks) :=
  [.commit first, .wal (.start 0)] ++ consume [tasks, users] 2 ++
    [.wal .ack, .tick, .row, .commit second, .take 20 both, .row, .load, .stop, .register,
      .live .connect, .live .session, .live .session, .live .session, .live .session,
      .commit third] ++
    consume [] 1 ++ [.wal .stop, .wal (.start 1)] ++ consume [tasks] 1 ++ [.wal .ack] ++
    consume [] 1 ++ [.wal .ack, .tick, .row, .live .fanOut, .row, .live .fanOut, .live .fanOut,
      .live .fanOut, .live .fanOut]

end Tasks

end Pipeline

end Tether
