/-
# Tether.Shape.Resume — a client that replays the log has what a snapshot shows

A shape instance keeps its state twice: as a cache of rows and as a log of events.
A client that resumes reads only the log.  `Client.follow` is what it does with an
event: insert and update replace the row stored under `pkKey(row)`, delete removes
it.

The two agree because every emission writes the cache entry that its event names
(`project_keyed`), so the cache is at any moment what following the whole log leaves
(`Traced`).  The update branch is the one that needs an assumption: the cache key
comes from the row before the update, the event carries the row after it
(`KeepsKey`).

An update that does not change the key string of its row is not enough for that
(`Regular`).  One of which neither row could be read is looked up under the empty
key and leaves the row without columns, which a filter of `IS NULL` tests accepts:
the event then has a row without a key, and no client can follow the log
(`not_resumable_of_unread`).

`Moment` lists the states a run goes through, the ones inside a snapshot load
included, so that every offset of the log is the end of the log at some moment.
-/
import Tether.Shape.Isolation

namespace Tether.Shape

open Tether.Lib Tether.Wal

set_option autoImplicit false

namespace Client

/-- What a client does with one event. -/
def follow (pk : List String) (rows : KeyMap String Row) (ev : Event) :
    Except ShapeError (KeyMap String Row) :=
  (pkKey pk ev.row).map fun key =>
    match ev.op with
    | .delete => rows.erase key
    | _ => rows.insert key ev.row

def followAll (pk : List String) (rows : KeyMap String Row) (events : List Event) :
    Except ShapeError (KeyMap String Row) :=
  events.foldlM (follow pk) rows

end Client

/-- The write an event stands for, for rows that have a key. -/
def Event.write (pk : List String) (ev : Event) : String × Option Row :=
  ((pkKey pk ev.row).toOption.getD "", if ev.op = .delete then none else some ev.row)

/-- Every event's row has a primary key. -/
def HaveKeys (pk : List String) (events : List Event) : Prop :=
  ∀ ev ∈ events, ∃ key, pkKey pk ev.row = .ok key

theorem Client.followAll_eq {pk : List String} {events : List Event}
    (keys : HaveKeys pk events) (rows : KeyMap String Row) :
    Client.followAll pk rows events = .ok (rows.write (events.map (Event.write pk))) := by
  induction events generalizing rows with
  | nil => rfl
  | cons ev events ih =>
      obtain ⟨key, own⟩ := keys ev List.mem_cons_self
      have first : Client.follow pk rows ev = .ok (rows.set (ev.write pk).1 (ev.write pk).2) := by
        cases op : ev.op <;>
          simp [Client.follow, own, Event.write, op, Except.map, Except.toOption, KeyMap.set]
      rw [Client.followAll, List.foldlM_cons, first]
      exact ih (fun ev' member => keys ev' (List.mem_cons_of_mem _ member)) _

variable {C : Type}

/-! ## Updates that keep the key -/

/-- The row after the update has the key string of the row before it.  A column that
the new row omits is as it was. -/
def SameKey (pk : List String) (ch : Change) : Prop :=
  ∀ old new key, ch.old = some old → ch.new = some new → pkKey pk old = .ok key →
    pkKey pk (new ∪ old) = .ok key

/-- The new row has all the key columns or none of them. -/
def WholeKey (pk : List String) (ch : Change) : Prop :=
  ∀ old new, ch.old = some old → ch.new = some new →
    (∀ col ∈ pk, col ∈ new) ∨ ∀ col ∈ pk, col ∉ new

/-- Without an old row the key is as it was. -/
theorem sameKey_of_old_none {pk : List String} {ch : Change} (unsent : ch.old = none) :
    SameKey pk ch ∧ WholeKey pk ch := by
  refine ⟨fun old new key before => ?_, fun old new before => ?_⟩
  · cases unsent.symm.trans before
  · cases unsent.symm.trans before

/-- An update that keeps the key string, and one `applyUpdate` can place: it has a row,
or the filter rejects the row without columns. -/
structure Regular (f : Filter) (pk : List String) (ch : Change) : Prop where
  same : SameKey pk ch
  whole : WholeKey pk ch
  placed : ch.old = none → ch.new = none → f.match (some ∅) = false

/-- The updates of the shape's table among the calls. -/
def Updates (d : Definition C) (P : Change → Prop) (calls : List Call) : Prop :=
  ∀ ch, .apply ch ∈ calls → ch.op = .update → tableMatch d ch = true → P ch

namespace Instance

/-- The row the update leaves in the shape has the string under which the row before it
is looked up. -/
def KeepsKey (inst : Instance C) : Call → Prop
  | .loadSnapshot _ _ => True
  | .apply ch => ch.op = .update → tableMatch inst.defn ch = true →
      ∀ key cached, inst.lookup (firstNonNil ch.old ch.new) = .ok (key, cached) →
        inst.filter.match (some (patchRow cached ch.old ch.new)) = true →
        pkKey inst.defn.primaryKey (patchRow cached ch.old ch.new) = .ok key

/-- Every update of the run leaves its row under the string it was looked up by. -/
def KeepsKeys (inst : Instance C) : List Call → Prop
  | [] => True
  | c :: calls => inst.KeepsKey c ∧ (inst.call c).KeepsKeys calls

theorem run_append (inst : Instance C) (calls calls' : List Call) :
    inst.run (calls ++ calls') = (inst.run calls).run calls' :=
  List.foldl_append

theorem keepsKeys_append {inst : Instance C} {calls calls' : List Call} :
    inst.KeepsKeys (calls ++ calls') ↔
      inst.KeepsKeys calls ∧ (inst.run calls).KeepsKeys calls' := by
  induction calls generalizing inst with
  | nil => simp [KeepsKeys, run]
  | cons c calls ih =>
      simp only [List.cons_append, KeepsKeys, ih, and_assoc]
      rfl

theorem lookup_key {inst : Instance C} {row : Option Row} {key : String} {cached : Option Row}
    (found : inst.lookup row = .ok (key, cached)) :
    (row = none ∧ cached = none) ∨
      ∃ r, row = some r ∧ pkKey inst.defn.primaryKey r = .ok key ∧
        cached = inst.cache.lookup key := by
  cases row with
  | none =>
      cases found
      exact Or.inl ⟨rfl, rfl⟩
  | some r =>
      cases own : pkKey inst.defn.primaryKey r with
      | error err => simp [lookup, own, Except.map] at found
      | ok k =>
          simp only [lookup, own, Except.map, Except.ok.injEq, Prod.mk.injEq] at found
          obtain ⟨rfl, rfl⟩ := found
          exact Or.inr ⟨r, rfl, own, rfl⟩

/-- What the cache has under the key of the old row has that key too. -/
theorem pkKey_cached_union {inst : Instance C} (keyed : inst.Keyed) {old : Row} {key : String}
    (own : pkKey inst.defn.primaryKey old = .ok key) :
    pkKey inst.defn.primaryKey ((inst.cache.lookup key).getD ∅ ∪ old) = .ok key := by
  cases found : inst.cache.lookup key with
  | none => rwa [Option.getD_none, Finmap.empty_union]
  | some row =>
      have held := keyed key row found
      rw [← held]
      refine pkKey_congr fun col member => ?_
      exact Finmap.lookup_union_left (present_of_pkKey held col member)

/-- **A regular update keeps the key**, on a cache of rows under their own keys. -/
theorem keepsKey_of_regular {inst : Instance C} (keyed : inst.Keyed) {ch : Change}
    (regular : Regular inst.filter inst.defn.primaryKey ch) : inst.KeepsKey (.apply ch) := by
  intro _ _ key cached found matched
  cases before : ch.old with
  | none =>
      cases after : ch.new with
      | none =>
          -- the merge of nothing is the row without columns
          rw [before, after] at found matched
          cases found
          have rejected := regular.placed before after
          simp [patchRow, rejected] at matched
      | some new =>
          rw [before, after] at found
          rcases lookup_key found with ⟨nothing, -⟩ | ⟨r, same, own, -⟩
          · cases nothing
          · obtain rfl : new = r := Option.some.inj same
            rw [← own]
            refine pkKey_congr fun col member => ?_
            exact Finmap.lookup_union_left (present_of_pkKey own col member)
  | some old =>
      rw [before] at found
      rcases lookup_key found with ⟨nothing, -⟩ | ⟨r, same, own, rfl⟩
      · cases nothing
      obtain rfl : old = r := Option.some.inj same
      have merged := pkKey_cached_union keyed own
      cases after : ch.new with
      | none => rwa [patchRow, Option.getD_none, Finmap.empty_union]
      | some new =>
          rcases regular.whole old new before after with all | nowhere
          · rw [← regular.same old new key before after own]
            refine pkKey_congr fun col member => ?_
            rw [patchRow, Option.getD_some, Finmap.lookup_union_left (all col member),
              Finmap.lookup_union_left (all col member)]
          · rw [← merged]
            refine pkKey_congr fun col member => ?_
            exact Finmap.lookup_union_right (nowhere col member)

/-! ## The key of a move -/

theorem applyDelete_keyed {inst : Instance C} (keyed : inst.Keyed) {old : Option Row} {m : Move}
    (decided : inst.applyDelete old = .ok (some m)) :
    pkKey inst.defn.primaryKey m.row = .ok m.key := by
  obtain ⟨key, row, rfl, cached | ⟨absent, rfl, -⟩⟩ := applyDelete_some decided
  · exact keyed key row (lookup_ok cached)
  · rcases lookup_key absent with ⟨nothing, -⟩ | ⟨r, same, own, -⟩
    · cases nothing
    · cases same
      exact own

theorem beforeRow_keyed {inst : Instance C} (keyed : inst.Keyed) {old neu cached : Option Row}
    {key : String} {before : Row} (found : inst.lookup (firstNonNil old neu) = .ok (key, cached))
    (held : inst.beforeRow cached old = some before) :
    pkKey inst.defn.primaryKey before = .ok key := by
  cases cached with
  | some r =>
      cases held
      exact keyed key _ (lookup_ok found)
  | none =>
      simp only [beforeRow, Option.none_or, Option.filter_eq_some_iff] at held
      obtain ⟨rfl, -⟩ := held
      rcases lookup_key found with ⟨nothing, -⟩ | ⟨r, same, own, -⟩
      · cases nothing
      · cases same
        exact own

theorem applyUpdate_keyed {inst : Instance C} (keyed : inst.Keyed) {ch : Change} {m : Move}
    (update : ch.op = .update) (mine : tableMatch inst.defn ch = true)
    (keeps : inst.KeepsKey (.apply ch)) (decided : inst.applyUpdate ch.old ch.new = .ok (some m)) :
    pkKey inst.defn.primaryKey m.row = .ok m.key := by
  cases found : inst.lookup (firstNonNil ch.old ch.new) with
  | error err => simp [applyUpdate, found, Except.map] at decided
  | ok entry =>
      obtain ⟨key, cached⟩ := entry
      have after := keeps update mine key cached found
      simp only [applyUpdate, found, Except.map, Except.ok.injEq] at decided
      split at decided
      · rename_i matched
        cases decided
        exact after matched
      · rename_i before held _
        cases decided
        exact beforeRow_keyed keyed found held
      · rename_i matched
        cases decided
        exact after matched
      · cases decided

theorem applyInsert_keyed {inst : Instance C} {neu : Option Row} {m : Move}
    (decided : inst.applyInsert neu = .ok (some m)) :
    pkKey inst.defn.primaryKey m.row = .ok m.key := by
  obtain ⟨key, row, rfl, -, -, keyed⟩ := applyInsert_some decided
  exact keyed

/-- **The event names the entry it writes.** -/
theorem project_keyed {inst : Instance C} (keyed : inst.Keyed) {ch : Change} {m : Move}
    (mine : tableMatch inst.defn ch = true) (keeps : inst.KeepsKey (.apply ch))
    (decided : inst.project ch = .ok (some m)) :
    pkKey inst.defn.primaryKey m.row = .ok m.key := by
  cases op : ch.op with
  | insert =>
      rw [project, op] at decided
      exact applyInsert_keyed decided
  | delete =>
      rw [project, op] at decided
      exact applyDelete_keyed keyed decided
  | update =>
      rw [project, op] at decided
      exact applyUpdate_keyed keyed op mine keeps decided
  | unknown text =>
      rw [project, op] at decided
      cases decided

/-! ## The cache is what the log leaves -/

/-- Rows are cached under their own keys, and following the log from the beginning
gives the cache. -/
structure Traced (inst : Instance C) : Prop where
  keyed : inst.Keyed
  keys : HaveKeys inst.defn.primaryKey inst.log.events
  cache : inst.cache =
    (∅ : KeyMap String Row).write (inst.log.events.map (Event.write inst.defn.primaryKey))

theorem traced_start (d : Definition C) (f : Filter) : (start d f).Traced where
  keyed := by simp [Keyed, start]
  keys := by simp [HaveKeys, start, Log.new]
  cache := rfl

theorem Traced.move {inst : Instance C} (traced : inst.Traced) {m : Move}
    (own : pkKey inst.defn.primaryKey m.row = .ok m.key) :
    ({ inst with
        cache := m.cache inst.cache
        log := inst.log.push m.op inst.defn.table m.row } : Instance C).Traced := by
  have written : m.cache inst.cache =
      inst.cache.set m.key (if m.op = .delete then none else some m.row) := by
    cases op : m.op <;> simp [Move.cache, op, KeyMap.set]
  refine ⟨?_, ?_, ?_⟩
  · intro key row found
    dsimp only at found
    rw [written, KeyMap.lookup_set] at found
    split at found
    · rename_i same
      subst same
      split at found
      · cases found
      · cases found
        exact own
    · exact traced.keyed key row found
  · intro ev member
    rcases List.mem_append.1 member with old | new
    · exact traced.keys ev old
    · cases List.mem_singleton.1 new
      exact ⟨m.key, own⟩
  · simp only [Log.push_events, List.map_append, KeyMap.write_append]
    rw [← traced.cache, written]
    simp [KeyMap.write, Event.write, own, Except.toOption]

theorem Traced.apply {inst : Instance C} (traced : inst.Traced) {ch : Change}
    (keeps : inst.KeepsKey (.apply ch)) : (inst.apply ch).1.Traced := by
  have stepped := inst.apply_step ch
  generalize inst.apply ch = result at stepped
  obtain ⟨inst', outcome⟩ := result
  cases stepped with
  | moved _ mine _ _ decided =>
      have moved := traced.move (project_keyed traced.keyed mine keeps decided)
      exact ⟨moved.keyed, moved.keys, moved.cache⟩
  | _ => exact ⟨traced.keyed, traced.keys, traced.cache⟩

theorem Traced.loadRows {inst : Instance C} (live : inst.log.halted = none)
    (traced : inst.Traced) (rows : List (Option Row)) : (inst.loadRows rows).1.Traced := by
  induction rows generalizing inst with
  | nil => exact traced
  | cons row rows ih =>
      cases row with
      | none => exact ih live traced
      | some row =>
          simp only [Instance.loadRows]
          split
          · split
            · exact traced
            · rename_i key own
              rw [record_live live]
              exact ih live (traced.move (m := ⟨.insert, key, row⟩) own)
          · exact ih live traced

theorem Traced.call {inst : Instance C} (traced : inst.Traced) {c : Call}
    (keeps : inst.KeepsKey c) : (inst.call c).Traced := by
  cases c with
  | apply ch => exact traced.apply keeps
  | loadSnapshot lsn rows =>
      simp only [Instance.call, loadSnapshot]
      cases live : inst.log.halted with
      | some cause => exact traced
      | none =>
          have seeded : Traced { inst with snapshotLSN := lsn, hasSnapshot := true } :=
            ⟨traced.keyed, traced.keys, traced.cache⟩
          refine Traced.loadRows ?_ seeded rows
          exact live

theorem Traced.run {inst : Instance C} (traced : inst.Traced) {calls : List Call}
    (keeps : inst.KeepsKeys calls) : (inst.run calls).Traced := by
  induction calls generalizing inst with
  | nil => exact traced
  | cons c calls ih => exact ih (traced.call keeps.1) keeps.2

/-- Regular updates keep their keys along a whole run. -/
theorem Traced.keepsKeys {inst : Instance C} (traced : inst.Traced) {calls : List Call}
    (regular : Updates inst.defn (Regular inst.filter inst.defn.primaryKey) calls) :
    inst.KeepsKeys calls := by
  induction calls generalizing inst with
  | nil => trivial
  | cons c calls ih =>
      have first : inst.KeepsKey c := by
        cases c with
        | loadSnapshot lsn rows => trivial
        | apply ch =>
            intro update mine
            exact keepsKey_of_regular traced.keyed
              (regular ch List.mem_cons_self update mine) update mine
      obtain ⟨defn, filter, -⟩ := extends_call inst c
      refine ⟨first, ih (traced.call first) ?_⟩
      rw [defn, filter]
      exact fun ch later => regular ch (List.mem_cons_of_mem _ later)

end Instance

/-! ## The moments of a run -/

/-- The state a run of `calls` is in at some moment is the state after the calls `m`:
between two calls, or inside a load, after some of its rows. -/
inductive Moment (calls : List Call) : List Call → Prop where
  | between (m rest : List Call) : calls = m ++ rest → Moment calls m
  | inside (before rest : List Call) (lsn : LSN) (part later : List (Option Row)) :
      calls = before ++ .loadSnapshot lsn (part ++ later) :: rest →
      Moment calls (before ++ [.loadSnapshot lsn part])

theorem Moment.cons {calls m : List Call} (moment : Moment calls m) (c : Call) :
    Moment (c :: calls) (c :: m) := by
  cases moment with
  | between _ rest split => exact .between (c :: m) rest (by rw [split, List.cons_append])
  | inside before rest lsn part later split =>
      exact .inside (c :: before) rest lsn part later (by rw [split, List.cons_append])

namespace Instance

theorem keepsKeys_of_moment {inst : Instance C} {calls m : List Call} (moment : Moment calls m)
    (keeps : inst.KeepsKeys calls) : inst.KeepsKeys m := by
  cases moment with
  | between _ rest split =>
      rw [split] at keeps
      exact (keepsKeys_append.1 keeps).1
  | inside before rest lsn part later split =>
      rw [split] at keeps
      exact keepsKeys_append.2 ⟨(keepsKeys_append.1 keeps).1, trivial, trivial⟩

theorem loadRows_append (inst : Instance C) (rows rows' : List (Option Row)) :
    Extends (inst.loadRows rows).1 (inst.loadRows (rows ++ rows')).1 := by
  induction rows generalizing inst with
  | nil => exact extends_loadRows inst rows'
  | cons row rows ih =>
      cases row with
      | none => exact ih inst
      | some row =>
          simp only [loadRows, List.cons_append]
          split
          · split
            · exact ⟨rfl, rfl, List.prefix_refl _⟩
            · split
              · exact ⟨rfl, rfl, List.prefix_refl _⟩
              · exact ih _
          · exact ih inst

/-- What was logged at some moment stays at the front of the log. -/
theorem kept_of_moment (inst : Instance C) {calls m : List Call} (moment : Moment calls m) :
    (inst.run m).log.events <+: (inst.run calls).log.events := by
  cases moment with
  | between _ rest split =>
      rw [split, run_append]
      exact (extends_run (inst.run m) rest).log
  | inside before rest lsn part later split =>
      rw [split, run_append, run_append]
      generalize inst.run before = inst
      refine List.IsPrefix.trans ?_ (extends_run _ rest).log
      simp only [run, List.foldl_cons, List.foldl_nil, call, loadSnapshot]
      split
      · exact List.prefix_refl _
      · exact (loadRows_append _ part later).log

/-- A load appends one event at a time. -/
theorem exists_part (inst : Instance C) (live : inst.log.halted = none) {n : Nat}
    {rows : List (Option Row)} (low : inst.log.events.length ≤ n)
    (high : n ≤ (inst.loadRows rows).1.log.events.length) :
    ∃ part later, rows = part ++ later ∧ (inst.loadRows part).1.log.events.length = n := by
  induction rows generalizing inst with
  | nil => exact ⟨[], [], rfl, le_antisymm low high⟩
  | cons row rows ih =>
      rcases low.eq_or_lt with here | below
      · exact ⟨[], row :: rows, rfl, here⟩
      · cases row with
        | none =>
            obtain ⟨part, later, split, length⟩ := ih inst live low high
            exact ⟨none :: part, later, by rw [split, List.cons_append], length⟩
        | some row =>
            simp only [loadRows] at high
            split at high
            · rename_i matched
              split at high
              · exact absurd high (Nat.not_le.2 below)
              · rename_i key own
                rw [record_live live] at high
                obtain ⟨part, later, split, length⟩ := ih
                  { inst with
                    cache := Move.cache ⟨.insert, key, row⟩ inst.cache
                    log := inst.log.push .insert inst.defn.table row }
                  live (by simpa [Nat.succ_le_iff] using below) high
                refine ⟨some row :: part, later, by rw [split, List.cons_append], ?_⟩
                simp only [loadRows, if_pos matched, own, record_live live]
                exact length
            · rename_i unmatched
              obtain ⟨part, later, split, length⟩ := ih inst live low high
              refine ⟨some row :: part, later, by rw [split, List.cons_append], ?_⟩
              simp only [loadRows, if_neg unmatched, length]

/-- `Apply` appends at most one event. -/
theorem length_apply (inst : Instance C) (ch : Change) :
    (inst.apply ch).1.log.events.length ≤ inst.log.events.length + 1 := by
  have stepped := inst.apply_step ch
  generalize inst.apply ch = result at stepped
  obtain ⟨inst', outcome⟩ := result
  cases stepped with
  | moved _ _ _ _ _ => simp
  | _ => exact Nat.le_succ _

/-- Inside one call the log has had every length in between. -/
theorem exists_moment_call {inst : Instance C} {c : Call} {n : Nat}
    (low : inst.log.events.length ≤ n) (high : n ≤ (inst.call c).log.events.length) :
    ∃ m, Moment [c] m ∧ (inst.run m).log.events.length = n := by
  cases c with
  | apply ch =>
      rcases low.eq_or_lt with here | below
      · exact ⟨[], .between [] [.apply ch] rfl, here⟩
      · refine ⟨[.apply ch], .between [.apply ch] [] rfl, ?_⟩
        have bound := inst.length_apply ch
        simp only [call, run, List.foldl_cons, List.foldl_nil] at high ⊢
        omega
  | loadSnapshot lsn rows =>
      simp only [call, loadSnapshot] at high
      cases live : inst.log.halted with
      | some cause =>
          rw [live] at high
          exact ⟨[], .between [] [.loadSnapshot lsn rows] rfl, le_antisymm low high⟩
      | none =>
          rw [live] at high
          obtain ⟨part, later, rfl, length⟩ := exists_part
            { inst with snapshotLSN := lsn, hasSnapshot := true } live low high
          refine ⟨[.loadSnapshot lsn part], .inside [] [] lsn part later rfl, ?_⟩
          simp only [run, List.foldl_cons, List.foldl_nil, call, loadSnapshot, live]
          exact length

/-- Every offset up to the last was the end of the log at some moment. -/
theorem exists_moment (inst : Instance C) {calls : List Call} {n : Nat}
    (low : inst.log.events.length ≤ n) (high : n ≤ (inst.run calls).log.events.length) :
    ∃ m, Moment calls m ∧ (inst.run m).log.events.length = n := by
  induction calls generalizing inst with
  | nil => exact ⟨[], .between [] [] rfl, le_antisymm low high⟩
  | cons c calls ih =>
      rcases le_total n (inst.call c).log.events.length with early | late
      · obtain ⟨m, moment, length⟩ := exists_moment_call low early
        refine ⟨m, ?_, length⟩
        cases moment with
        | between _ rest split =>
            exact .between m (rest ++ calls) (by rw [← List.append_assoc, ← split]; rfl)
        | inside before rest lsn part later split =>
            refine .inside before (rest ++ calls) lsn part later ?_
            rw [← List.cons_append, ← List.append_assoc, ← split]
            rfl
      · obtain ⟨m, moment, length⟩ := ih (inst.call c) late high
        exact ⟨c :: m, moment.cons c, length⟩

end Instance

/-! ## Resuming -/

/-- **Resume equals re-snapshot**, for the run of `calls` on a new instance. -/
structure Resumable (d : Definition C) (f : Filter) (calls : List Call) : Prop where
  /-- The offsets are `1, 2, 3, …` -/
  offsets : ((Instance.start d f).run calls).log.events.map Event.offset =
    (List.range ((Instance.start d f).run calls).log.events.length).map fun i : Nat => (i : Int) + 1
  /-- What was logged at some moment is never altered. -/
  kept : ∀ m, Moment calls m →
    ((Instance.start d f).run m).log.events <+: ((Instance.start d f).run calls).log.events
  /-- The log ended at every offset once. -/
  reached : ∀ o, 0 ≤ o → o ≤ ((Instance.start d f).run calls).log.lastOffset →
    ∃ m, Moment calls m ∧ ((Instance.start d f).run m).log.lastOffset = o
  /-- A client that holds the cache of that moment and follows the log from there has
  the rows of a snapshot, and following any longer part again changes nothing. -/
  resumed : ∀ m o, Moment calls m → ((Instance.start d f).run m).log.lastOffset = o →
    ∃ events rows, ((Instance.start d f).run calls).log.after o = some events ∧
      Client.followAll d.withDefaults.primaryKey ((Instance.start d f).run m).cache events =
        .ok rows ∧
      rows.values = ((Instance.start d f).run calls).materialized ∧
      ∀ o', 0 ≤ o' → o' ≤ o → ∃ again rows',
        ((Instance.start d f).run calls).log.after o' = some again ∧
        Client.followAll d.withDefaults.primaryKey rows again = .ok rows' ∧
        rows'.values = ((Instance.start d f).run calls).materialized

namespace Instance

/-- Following the log from where it ended at some moment leads from the cache of that
moment to the cache now. -/
theorem write_since {inst : Instance C} {calls m : List Call} (traced : inst.Traced)
    (keeps : inst.KeepsKeys calls) (moment : Moment calls m) :
    (inst.run m).cache.write (((inst.run calls).log.events.drop
        (inst.run m).log.events.length).map (Event.write inst.defn.primaryKey)) =
      (inst.run calls).cache := by
  have now := traced.run keeps
  have held := traced.run (keepsKeys_of_moment moment keeps)
  have pk : ∀ calls, (inst.run calls).defn = inst.defn := fun calls => (extends_run inst calls).defn
  obtain ⟨later, split⟩ := kept_of_moment inst moment
  rw [now.cache, held.cache, pk, pk, ← KeyMap.write_append, ← List.map_append, ← split,
    List.drop_left]

/-- Following it from there once more changes nothing. -/
theorem write_since_again {inst : Instance C} {calls m : List Call} (traced : inst.Traced)
    (keeps : inst.KeepsKeys calls) (moment : Moment calls m) :
    (inst.run calls).cache.write (((inst.run calls).log.events.drop
        (inst.run m).log.events.length).map (Event.write inst.defn.primaryKey)) =
      (inst.run calls).cache := by
  have reached := write_since traced keeps moment
  calc (inst.run calls).cache.write _
      = ((inst.run m).cache.write _).write _ := by rw [reached]
    _ = (inst.run m).cache.write _ := KeyMap.write_write _ _
    _ = (inst.run calls).cache := reached

theorem resumable_of_keepsKeys {d : Definition C} {f : Filter} {calls : List Call}
    (keeps : (start d f).KeepsKeys calls) : Resumable d f calls := by
  have traced := traced_start d f
  have keys := (traced.run keeps).keys
  rw [(extends_run (start d f) calls).defn] at keys
  have follow : ∀ (rows : KeyMap String Row) (n : Nat),
      Client.followAll d.withDefaults.primaryKey rows
          (((start d f).run calls).log.events.drop n) =
        .ok (rows.write ((((start d f).run calls).log.events.drop n).map
          (Event.write d.withDefaults.primaryKey))) :=
    fun rows n => Client.followAll_eq (fun ev member => keys ev (List.mem_of_mem_drop member)) rows
  have moments : ∀ o, 0 ≤ o → o ≤ ((start d f).run calls).log.lastOffset →
      ∃ m, Moment calls m ∧ ((start d f).run m).log.lastOffset = o := by
    intro o low high
    rw [Log.lastOffset_eq] at high
    have within : o.toNat ≤ ((start d f).run calls).log.events.length := by omega
    obtain ⟨m, moment, length⟩ := exists_moment (start d f) (by simp [start, Log.new]) within
    exact ⟨m, moment, by rw [Log.lastOffset_eq]; omega⟩
  refine ⟨Log.offsets_eq _, fun m moment => kept_of_moment _ moment, moments, ?_⟩
  intro m o moment last
  have short := (kept_of_moment (start d f) moment).length_le
  have bound : o ≤ ((start d f).run calls).log.lastOffset := by
    rw [Log.lastOffset_eq] at last ⊢
    omega
  have ended : o.toNat = ((start d f).run m).log.events.length := by
    rw [Log.lastOffset_eq] at last
    omega
  have nonneg : 0 ≤ o := by
    rw [Log.lastOffset_eq] at last
    omega
  refine ⟨_, ((start d f).run calls).cache, Log.after_eq_drop _ nonneg bound, ?_, rfl, ?_⟩
  · rw [follow, ended]
    exact congrArg Except.ok (write_since traced keeps moment)
  · intro o' low high
    obtain ⟨m', moment', last'⟩ := moments o' low (high.trans bound)
    have ended' : o'.toNat = ((start d f).run m').log.events.length := by
      rw [Log.lastOffset_eq] at last'
      omega
    refine ⟨_, ((start d f).run calls).cache, Log.after_eq_drop _ low (high.trans bound), ?_, rfl⟩
    rw [follow, ended']
    exact congrArg Except.ok (write_since_again traced keeps moment')

/-- An update of the shape's table of which neither row could be read. -/
structure Unread (d : Definition C) (ch : Change) : Prop where
  update : ch.op = .update
  old : ch.old = none
  new : ch.new = none
  mine : tableMatch d.withDefaults ch = true

theorem exists_unread (d : Definition C) : ∃ ch, Unread d ch := by
  have named : d.withDefaults.schema ≠ "" := by
    unfold Definition.withDefaults
    split <;> simp_all
  refine ⟨{ schema := d.withDefaults.schema, table := d.withDefaults.table, op := .update },
    rfl, rfl, rfl, ?_⟩
  simp [tableMatch, named]

/-- A filter that accepts the row without columns logs it for such an update. -/
theorem log_unread {d : Definition C} {f : Filter} {ch : Change} (unread : Unread d ch)
    (accepted : f.match (some ∅) = true) :
    ((start d f).run [.apply ch]).log.events = [⟨1, .insert, d.withDefaults.table, ∅⟩] := by
  obtain ⟨fp, checked⟩ : ∃ fp, (start d f).checkFingerprint ch.relationFingerprint =
      .ok { start d f with fingerprint := fp } := by
    unfold checkFingerprint
    split
    · exact ⟨_, rfl⟩
    · exact ⟨_, if_pos rfl⟩
  have decided : (start d f).project ch = .ok (some ⟨.insert, "", ∅⟩) := by
    have merged : patchRow none none none = (∅ : Row) := by simp [patchRow]
    have filter : (start d f).filter = f := rfl
    simp [project, unread.update, unread.old, unread.new, applyUpdate, lookup, firstNonNil,
      beforeRow, Except.map, merged, filter, accepted]
  have stepped := (start d f).apply_step ch
  simp only [run, List.foldl_cons, List.foldl_nil, call]
  generalize (start d f).apply ch = result at stepped ⊢
  obtain ⟨inst, outcome⟩ := result
  cases stepped with
  | halted halted => cases halted
  | ignored _ why =>
      rcases why with foreign | gated
      · cases foreign.symm.trans unread.mine
      · cases gated
  | drifted _ _ _ drifted => cases checked.symm.trans drifted
  | failed _ _ _ _ failed => cases decided.symm.trans failed
  | silent _ _ _ _ silent => cases decided.symm.trans silent
  | moved _ _ _ _ moved =>
      cases decided.symm.trans moved
      rfl

/-- No client can follow that log: the row of its event has no key. -/
theorem not_resumable_of_unread {d : Definition C} {f : Filter} {ch : Change}
    (unread : Unread d ch) (accepted : f.match (some ∅) = true) :
    ¬ Resumable d f [.apply ch] := by
  intro resumable
  obtain ⟨events, rows, read, followed, -⟩ :=
    resumable.resumed [] 0 (.between [] _ rfl) rfl
  have whole : events = [⟨1, .insert, d.withDefaults.table, ∅⟩] := by
    have last : (0 : Int) ≤ ((start d f).run [.apply ch]).log.lastOffset := by
      rw [Log.lastOffset_eq]
      omega
    rw [Log.after_eq_drop _ le_rfl last, log_unread unread accepted] at read
    exact (Option.some.inj read).symm
  rw [whole] at followed
  cases own : pkKey d.withDefaults.primaryKey ∅ with
  | error err =>
      simp [Client.followAll, Client.follow, own, Except.map, bind, Except.bind] at followed
  | ok key =>
      obtain ⟨col, member⟩ := List.exists_mem_of_ne_nil _ d.primaryKey_ne_nil
      exact Finmap.notMem_empty (present_of_pkKey own col member)

/-- **Resume equals re-snapshot, for regular updates.**  Among the updates that keep the
key string of their rows only those without any row are in the way, and only where the
filter asks for nothing but absent values. -/
theorem resume_eq_snapshot (d : Definition C) (f : Filter) :
    (∀ calls, (start d f).KeepsKeys calls → Resumable d f calls) ∧
      (∀ calls, Updates d.withDefaults (Regular f d.withDefaults.primaryKey) calls →
        Resumable d f calls) ∧
      ((∀ calls, Updates d.withDefaults (fun ch => SameKey d.withDefaults.primaryKey ch ∧
          WholeKey d.withDefaults.primaryKey ch) calls → Resumable d f calls) ↔
        ∃ p ∈ f.preds, p.op ≠ .isNull) := by
  have regular : ∀ calls, Updates d.withDefaults (Regular f d.withDefaults.primaryKey) calls →
      Resumable d f calls := fun calls updates =>
    resumable_of_keepsKeys ((traced_start d f).keepsKeys updates)
  refine ⟨fun calls => resumable_of_keepsKeys, regular, fun always => ?_, fun tested => ?_⟩
  · by_contra untested
    have accepted : f.match (some ∅) = true := f.match_empty_iff.2 fun p member => by
      by_contra other
      exact untested ⟨p, member, other⟩
    obtain ⟨ch, unread⟩ := exists_unread d
    refine not_resumable_of_unread unread accepted (always _ fun ch' member _ _ => ?_)
    cases List.mem_singleton.1 member
    exact sameKey_of_old_none unread.old
  · obtain ⟨p, member, other⟩ := tested
    have rejected : f.match (some ∅) = false := by
      by_contra accepted
      exact other (f.match_empty_iff.1 (Bool.eq_true_of_not_eq_false accepted) p member)
    refine fun calls updates => regular calls fun ch here update mine => ?_
    obtain ⟨same, whole⟩ := updates ch here update mine
    exact ⟨same, whole, fun _ _ => rejected⟩

namespace Todo

def todo : Definition Unit :=
  { name := "todo", schema := "", table := "", primaryKey := [],
    bind := some fun _ => .ok (.notNull "id") }

def item (id : Int64) (done : Bool) : Row := KeyMap.ofList [("id", .int64 id), ("done", .bool done)]

def change (op : Op) (lsn : LSN) (old new : Option Row) : Change :=
  { schema := "public", table := "todo", op := op, commitLSN := lsn, old := old, new := new }

/-- A snapshot of one item, which is then done and deleted, and a second item. -/
def calls : List Call :=
  [.loadSnapshot 5 [some (item 1 false)], .apply (change .update 10 none (some (item 1 true))),
    .apply (change .insert 11 none (some (item 2 false))),
    .apply (change .delete 12 (some (item 1 true)) none)]

theorem resume_eq_snapshot_calls :
    ((start todo (.notNull "id")).run calls).log.lastOffset = 4 ∧
      ((start todo (.notNull "id")).run calls).materialized = {item 2 false} ∧
      Resumable todo (.notNull "id") calls := by
  refine ⟨by decide, by decide, (resume_eq_snapshot todo (.notNull "id")).2.1 calls ?_⟩
  intro ch member update _
  have only : ch = change .update 10 none (some (item 1 true)) := by
    simp only [calls, List.mem_cons, reduceCtorEq, Call.apply.injEq, List.not_mem_nil, or_false,
      false_or] at member
    rcases member with rfl | rfl | rfl
    · rfl
    · cases update
    · cases update
  subst only
  obtain ⟨same, whole⟩ := sameKey_of_old_none
    (rfl : (change .update 10 none (some (item 1 true))).old = none)
  exact ⟨same, whole, fun _ unread => by cases unread⟩

/-- An item of which nothing but its key is given. -/
def named (org name : String) : Row :=
  KeyMap.ofList [("org", .string org), ("name", .string name)]

/-- A new row with one of two key columns, sent with an old row whose key string belongs
to another row too: the merge takes the second column from that other row, and the row
is cached under a key that it does not have. -/
example :
    ((start { todo with primaryKey := ["org", "name"] } (.notNull "org")).run
        [.loadSnapshot 5 [some (named "a|b" "c")],
          .apply (change .update 10 (some (named "a" "b|c"))
            (some (KeyMap.ofList [("org", .string "a")])))]).cache.lookup "a|b|c" =
      some (named "a" "c") := by
  decide

/-- The items that have not been marked. -/
def unmarked : Filter := ⟨[{ column := "done", op := .isNull }]⟩

/-- An update of which neither row could be read changes no key.  It is logged as the
insert of a row without columns and cached under the empty key, and no client can follow
the log. -/
theorem unread_update_not_resumable :
    SameKey ["id"] (change .update 10 none none) ∧ WholeKey ["id"] (change .update 10 none none) ∧
      ((start todo unmarked).run [.apply (change .update 10 none none)]).log.events =
        [⟨1, .insert, "todo", ∅⟩] ∧
      ((start todo unmarked).run [.apply (change .update 10 none none)]).cache.lookup "" =
        some ∅ ∧
      ¬ Resumable todo unmarked [.apply (change .update 10 none none)] := by
  have unread : Unread todo (change .update 10 none none) := ⟨rfl, rfl, rfl, by decide⟩
  obtain ⟨same, whole⟩ := sameKey_of_old_none unread.old
  exact ⟨same, whole, by decide, by decide, not_resumable_of_unread unread (by decide)⟩

end Todo

end Instance

end Tether.Shape
