/-
# Tether.Shape.KeyUpdate — updates that change the primary key

`applyUpdate` takes one cache key, from the old row, and uses it for the lookup and
for the store.  An update that gives the row another primary key therefore leaves
the new row under the key of the old one, and announces it as an update of a row
the client has under no such key.  The move comes out right exactly when there is
nothing to store: the new row does not match the filter (`moved_iff`).  A run in
which one key update fails to move its row is broken from there on, so the law for
runs is about all of them: every key update moves its row exactly when every one
takes it out of the shape (`key_update_moves_iff`).

Rows are rows of one table, so nothing cached has a column that a complete new row
lacks (`run_within`) and the merge in `patchRow` gives the new row back.
-/
import Tether.Shape.Refinement
import Tether.Shape.Resume

namespace Tether.Shape

open Tether.Lib Tether.Wal

set_option autoImplicit false

/-- Every row of the call has only the columns of the table. -/
def Call.Within (columns : Finset String) : Call → Prop
  | .loadSnapshot _ rows => ∀ row, some row ∈ rows → row.keys ⊆ columns
  | .apply ch => ∀ row, ch.old = some row ∨ ch.new = some row → row.keys ⊆ columns

/-- An update that gives a row another primary key.  The new row is complete; the old
one has every column too, with NULL outside the key where only the key was sent. -/
structure KeyUpdate (columns : Finset String) (pk : List String) (ch : Change) (old new : Row) :
    Prop where
  update : ch.op = .update
  before : ch.old = some old
  after : ch.new = some new
  oldColumns : old.keys = columns
  newColumns : new.keys = columns
  keyColumns : ∀ col ∈ pk, col ∈ columns
  differs : pk.map (fun col => old.lookup col) ≠ pk.map fun col => new.lookup col

variable {C : Type}

namespace Instance

/-- The change is one of the instance's table past its snapshot, and `Apply` accepts it. -/
structure Applied (inst : Instance C) (ch : Change) : Prop where
  mine : tableMatch inst.defn ch = true
  passes : inst.skips ch = false
  accepted : ∃ evs, (inst.apply ch).2 = .ok evs

/-- **The row has moved**: the state after the update `ch` of `old` to `new`. -/
structure Moved (inst : Instance C) (ch : Change) (old new : Row) : Prop where
  left : ∀ key, pkKey inst.defn.primaryKey old = .ok key →
    (inst.apply ch).1.cache.lookup key = none
  arrived : ∀ key, pkKey inst.defn.primaryKey new = .ok key →
    ((inst.apply ch).1.cache.lookup key = some new ↔ inst.filter.match (some new) = true)
  keyed : (inst.apply ch).1.Keyed
  followed : ∃ rows,
    Client.followAll inst.defn.primaryKey ∅ (inst.apply ch).1.log.events = .ok rows ∧
      rows.values = (inst.apply ch).1.materialized

/-! ## Columns -/

/-- No cached row has a column outside `columns`. -/
def CacheWithin (columns : Finset String) (inst : Instance C) : Prop :=
  ∀ key row, inst.cache.lookup key = some row → row.keys ⊆ columns

variable {columns : Finset String} {inst : Instance C}

theorem patchRow_within {cached old neu : Option Row}
    (within : ∀ row, cached = some row ∨ old = some row ∨ neu = some row → row.keys ⊆ columns) :
    (patchRow cached old neu).keys ⊆ columns := by
  have part : ∀ row : Option Row, (∀ r, row = some r → r.keys ⊆ columns) →
      (row.getD ∅).keys ⊆ columns := by
    intro row inside
    cases row with
    | none => simp
    | some r => exact inside r rfl
  rw [patchRow, Finmap.keys_union, Finmap.keys_union]
  refine Finset.union_subset (part neu fun r same => within r (Or.inr (Or.inr same)))
    (Finset.union_subset (part cached fun r same => within r (Or.inl same))
      (part old fun r same => within r (Or.inr (Or.inl same))))

/-- A row that a change brings into the cache is built from the change and the cache. -/
theorem project_within (held : inst.CacheWithin columns) {ch : Change}
    (within : (Call.apply ch).Within columns) {m : Move} (decided : inst.project ch = .ok (some m))
    (stays : m.op ≠ .delete) : m.row.keys ⊆ columns := by
  cases op : ch.op with
  | insert =>
      rw [project, op] at decided
      obtain ⟨key, neu, rfl, given, -, -⟩ := applyInsert_some decided
      exact within neu (Or.inr given)
  | delete =>
      rw [project, op] at decided
      obtain ⟨key, row, rfl, -⟩ := applyDelete_some decided
      exact absurd rfl stays
  | update =>
      rw [project, op] at decided
      cases found : inst.lookup (firstNonNil ch.old ch.new) with
      | error err => simp [applyUpdate, found, Except.map] at decided
      | ok entry =>
          obtain ⟨key, cached⟩ := entry
          have merged : (patchRow cached ch.old ch.new).keys ⊆ columns := by
            refine patchRow_within fun row source => ?_
            rcases source with rfl | given
            · exact held key row (lookup_ok found)
            · exact within row given
          simp only [applyUpdate, found, Except.map, Except.ok.injEq] at decided
          split at decided <;> cases decided
          · exact merged
          · exact absurd rfl stays
          · exact merged
  | unknown text =>
      rw [project, op] at decided
      cases decided

theorem move_within (held : inst.CacheWithin columns) {m : Move}
    (within : m.op ≠ .delete → m.row.keys ⊆ columns) {key : String} {row : Row}
    (found : (m.cache inst.cache).lookup key = some row) : row.keys ⊆ columns := by
  cases op : m.op with
  | delete =>
      simp only [Move.cache, op, KeyMap.lookup_erase_eq] at found
      split at found
      · cases found
      · exact held key row found
  | insert | update =>
      simp only [Move.cache, op, KeyMap.lookup_insert_eq] at found
      split at found
      · cases found
        exact within (by simp [op])
      · exact held key row found

theorem loadRows_within (held : inst.CacheWithin columns) (live : inst.log.halted = none)
    {rows : List (Option Row)} (within : ∀ row, some row ∈ rows → row.keys ⊆ columns) :
    (inst.loadRows rows).1.CacheWithin columns := by
  induction rows generalizing inst with
  | nil => exact held
  | cons row rows ih =>
      have later : ∀ r, some r ∈ rows → r.keys ⊆ columns := fun r member =>
        within r (List.mem_cons_of_mem _ member)
      cases row with
      | none => exact ih held live later
      | some row =>
          simp only [loadRows]
          split
          · split
            · exact held
            · rename_i key _
              rw [record_live live]
              refine ih (fun k r found => ?_) live later
              exact move_within (m := ⟨.insert, key, row⟩) held
                (fun _ => within row List.mem_cons_self) found
          · exact ih held live later

theorem call_within (held : inst.CacheWithin columns) {c : Call} (within : c.Within columns) :
    (inst.call c).CacheWithin columns := by
  cases c with
  | loadSnapshot lsn rows =>
      simp only [call, loadSnapshot]
      cases live : inst.log.halted with
      | some cause => exact held
      | none =>
          have seeded :
              CacheWithin columns { inst with snapshotLSN := lsn, hasSnapshot := true } := held
          exact loadRows_within seeded live within
  | apply ch =>
      have stepped := inst.apply_step ch
      simp only [call]
      generalize inst.apply ch = result at stepped
      obtain ⟨inst', outcome⟩ := result
      cases stepped with
      | moved _ _ _ _ decided =>
          intro key row found
          exact move_within held (project_within held within decided) found
      | _ => exact held

theorem run_within (held : inst.CacheWithin columns) {calls : List Call}
    (within : ∀ c ∈ calls, c.Within columns) : (inst.run calls).CacheWithin columns := by
  induction calls generalizing inst with
  | nil => exact held
  | cons c calls ih =>
      exact ih (call_within held (within c List.mem_cons_self)) fun c' member =>
        within c' (List.mem_cons_of_mem _ member)

theorem run_start_within {d : Definition C} {f : Filter} {calls : List Call}
    (within : ∀ c ∈ calls, c.Within columns) : ((start d f).run calls).CacheWithin columns :=
  run_within (by simp [CacheWithin, start]) within

/-! ## One update of a key -/

/-- The merge gives a complete new row back. -/
theorem patchRow_complete {cached : Option Row} {old new : Row}
    (held : ∀ row, cached = some row → row.keys ⊆ new.keys) (same : old.keys = new.keys) :
    patchRow cached (some old) (some new) = new := by
  refine Finmap.ext_lookup fun col => ?_
  rw [patchRow, Option.getD_some, Option.getD_some, KeyMap.lookup_union_eq]
  cases found : new.lookup col with
  | some v => rfl
  | none =>
      have absent : col ∉ new.keys := Finmap.lookup_eq_none.1 found
      have notOld : old.lookup col = none := Finmap.lookup_eq_none.2 fun member =>
        absent (same ▸ Finmap.mem_keys.2 member)
      cases cached with
      | none => simp [notOld]
      | some row =>
          have notHeld : row.lookup col = none := Finmap.lookup_eq_none.2 fun member =>
            absent (held row rfl (Finmap.mem_keys.2 member))
          simp [KeyMap.lookup_union_eq, notOld, notHeld]

variable {ch : Change} {old new : Row}

theorem patchRow_keyUpdate (update : KeyUpdate columns inst.defn.primaryKey ch old new)
    (held : inst.CacheWithin columns) {key : String} {cached : Option Row}
    (found : inst.lookup (firstNonNil ch.old ch.new) = .ok (key, cached)) :
    patchRow cached ch.old ch.new = new := by
  rw [update.before, update.after]
  refine patchRow_complete (fun row same => ?_) (update.oldColumns.trans update.newColumns.symm)
  rw [update.newColumns]
  subst same
  exact held key row (lookup_ok found)

/-- Whatever the update is announced as, it leaves the new row under the key of the old one,
if the new row matches. -/
theorem project_keyUpdate (update : KeyUpdate columns inst.defn.primaryKey ch old new)
    (held : inst.CacheWithin columns) {key : String}
    (own : pkKey inst.defn.primaryKey old = .ok key) :
    ∃ move, inst.project ch = .ok move ∧
      (move.elim inst.cache fun m => m.cache inst.cache).lookup key =
        inst.filter.select (some new) := by
  have found : inst.lookup (firstNonNil ch.old ch.new) = .ok (key, inst.cache.lookup key) := by
    simp [firstNonNil, update.before, lookup, own, Except.map]
  have merged := patchRow_keyUpdate update held found
  cases before : inst.beforeRow (inst.cache.lookup key) ch.old with
  | none =>
      cases matched : inst.filter.match (some new) with
      | false =>
          refine ⟨none, ?_, ?_⟩
          · simp [project, update.update, applyUpdate, found, Except.map, merged, before, matched]
          · -- neither before nor after in the shape: nothing is cached under the old key
            rw [Filter.select_some, matched, if_neg Bool.false_ne_true]
            exact (Option.or_eq_none_iff.1 before).1
      | true =>
          refine ⟨some ⟨.insert, key, new⟩, ?_, ?_⟩
          · simp [project, update.update, applyUpdate, found, Except.map, merged, before, matched]
          · simp [Move.cache, Filter.select_some, matched]
  | some row =>
      cases matched : inst.filter.match (some new) with
      | false =>
          refine ⟨some ⟨.delete, key, row⟩, ?_, ?_⟩
          · simp [project, update.update, applyUpdate, found, Except.map, merged, before, matched]
          · simp [Move.cache, Filter.select_some, matched]
      | true =>
          refine ⟨some ⟨.update, key, new⟩, ?_, ?_⟩
          · simp [project, update.update, applyUpdate, found, Except.map, merged, before, matched]
          · simp [Move.cache, Filter.select_some, matched]

/-- What is stored under the key of the old row: the new one, if it matches. -/
theorem lookup_keyUpdate (update : KeyUpdate columns inst.defn.primaryKey ch old new)
    (held : inst.CacheWithin columns) (applied : inst.Applied ch) {key : String}
    (own : pkKey inst.defn.primaryKey old = .ok key) :
    (inst.apply ch).1.cache.lookup key = inst.filter.select (some new) := by
  obtain ⟨move, decided, left⟩ := project_keyUpdate update held own
  obtain ⟨mine, passes, evs, accepted⟩ := applied
  have outcome := inst.apply_step ch
  generalize inst.apply ch = result at outcome accepted ⊢
  obtain ⟨inst', outcome'⟩ := result
  cases outcome with
  | halted _ => cases accepted
  | ignored _ why =>
      rcases why with foreign | gated
      · cases foreign.symm.trans mine
      · cases gated.symm.trans passes
  | drifted _ _ _ _ => cases accepted
  | failed _ _ _ _ _ => cases accepted
  | silent _ _ _ _ silent =>
      cases decided.symm.trans silent
      exact left
  | moved _ _ _ _ moved =>
      cases decided.symm.trans moved
      exact left

/-- A key update that takes its row out of the shape leaves nothing to store. -/
theorem keepsKey_of_unmatched (update : KeyUpdate columns inst.defn.primaryKey ch old new)
    (held : inst.CacheWithin columns) (unmatched : inst.filter.match (some new) = false) :
    inst.KeepsKey (.apply ch) := by
  intro _ _ key cached found matched
  rw [patchRow_keyUpdate update held found, unmatched] at matched
  cases matched

/-- **A key update moves the row exactly when the new row is outside the filter**, if the
cache is what the log leaves. -/
theorem moved_iff (traced : inst.Traced) (isolated : inst.Isolated)
    (held : inst.CacheWithin columns) (nonempty : inst.defn.primaryKey ≠ [])
    (update : KeyUpdate columns inst.defn.primaryKey ch old new) (applied : inst.Applied ch) :
    inst.Moved ch old new ↔ inst.filter.match (some new) = false := by
  have keyed : ∃ key, pkKey inst.defn.primaryKey old = .ok key := by
    refine ⟨_, pkKey_of_present nonempty fun col member => ?_⟩
    rw [← Finmap.mem_keys, update.oldColumns]
    exact update.keyColumns col member
  constructor
  · intro moved
    obtain ⟨key, own⟩ := keyed
    have gone := moved.left key own
    rw [lookup_keyUpdate update held applied own, Filter.select_some] at gone
    split at gone
    · cases gone
    · rename_i unmatched
      exact Bool.eq_false_of_not_eq_true unmatched
  · intro unmatched
    have traced' := traced.apply (keepsKey_of_unmatched update held unmatched)
    have isolated' := isolated_apply isolated ch
    have frame := extends_apply inst ch
    refine ⟨fun key own => ?_, fun key own => ?_, traced'.keyed, ?_⟩
    · rw [lookup_keyUpdate update held applied own, Filter.select_some, unmatched]
      rfl
    · rw [unmatched]
      refine ⟨fun found => ?_, fun off => absurd off Bool.false_ne_true⟩
      have matched := isolated'.cached key new found
      rw [frame.filter, unmatched] at matched
      exact matched
    · have keys := traced'.keys
      have cache := traced'.cache
      rw [frame.defn] at keys cache
      refine ⟨_, Client.followAll_eq keys ∅, ?_⟩
      rw [← cache]
      rfl

/-! ## Runs with key updates -/

/-- Only a change that is applied can break the correspondence of cache and log. -/
theorem Traced.apply_of_applied (traced : inst.Traced)
    (keeps : inst.Applied ch → inst.KeepsKey (.apply ch)) : (inst.apply ch).1.Traced := by
  by_cases applied : inst.Applied ch
  · exact traced.apply (keeps applied)
  · have stepped := inst.apply_step ch
    have refused : ∀ evs, tableMatch inst.defn ch = true → inst.skips ch = false →
        (inst.apply ch).2 ≠ .ok evs := fun evs mine passes ok =>
      applied ⟨mine, passes, evs, ok⟩
    generalize inst.apply ch = result at stepped refused
    obtain ⟨inst', outcome⟩ := result
    cases stepped with
    | moved _ mine passes _ _ => exact absurd rfl (refused _ mine passes)
    | _ => exact ⟨traced.keyed, traced.keys, traced.cache⟩

section Runs

variable {d : Definition C} {f : Filter} {calls : List Call}

/-- `P` holds of every key update of the run that is applied, in the state it meets. -/
def KeyUpdates (columns : Finset String) (d : Definition C) (f : Filter)
    (P : Instance C → Change → Row → Row → Prop) (calls : List Call) : Prop :=
  ∀ before ch after old new, calls = before ++ .apply ch :: after →
    KeyUpdate columns d.withDefaults.primaryKey ch old new →
    ((start d f).run before).Applied ch → P ((start d f).run before) ch old new

/-- The row is not in the shape after the update. -/
def Leaves (inst : Instance C) (_ : Change) (_ new : Row) : Prop :=
  inst.filter.match (some new) = false

/-- Every update of the table gives its row another key or is regular. -/
def Ordinary (columns : Finset String) (d : Definition C) (f : Filter) (calls : List Call) : Prop :=
  Updates d.withDefaults (fun ch => Regular f d.withDefaults.primaryKey ch ∨
    ∃ old new, KeyUpdate columns d.withDefaults.primaryKey ch old new) calls

theorem KeyUpdates.init {P : Instance C → Change → Row → Row → Prop} {rest : List Call}
    (all : KeyUpdates columns d f P (calls ++ rest)) : KeyUpdates columns d f P calls := by
  intro before ch after old new split
  refine all before ch (after ++ rest) old new ?_
  rw [split, List.append_assoc, List.cons_append]

theorem Ordinary.init {rest : List Call} (ordinary : Ordinary columns d f (calls ++ rest)) :
    Ordinary columns d f calls :=
  fun ch member => ordinary ch (List.mem_append_left _ member)

/-- While the key updates only take rows out of the shape, the cache is what the log
leaves. -/
theorem traced_of_leaves (within : ∀ c ∈ calls, c.Within columns)
    (ordinary : Ordinary columns d f calls) (leaves : KeyUpdates columns d f Leaves calls) :
    ((start d f).run calls).Traced := by
  induction calls using List.reverseRecOn with
  | nil => exact traced_start d f
  | append_singleton calls c ih =>
      have early : ∀ c ∈ calls, c.Within columns := fun c member =>
        within c (List.mem_append_left _ member)
      have traced := ih early ordinary.init leaves.init
      have held : ((start d f).run calls).CacheWithin columns := run_start_within early
      obtain ⟨defn, filter, -⟩ := extends_run (start d f) calls
      rw [run_append]
      cases c with
      | loadSnapshot lsn rows => exact traced.call (c := .loadSnapshot lsn rows) trivial
      | apply ch =>
          refine traced.apply_of_applied fun applied update mine => ?_
          have now : Regular f d.withDefaults.primaryKey ch ∨
              ∃ old new, KeyUpdate columns d.withDefaults.primaryKey ch old new := by
            rw [defn] at mine
            exact ordinary ch (List.mem_append_right _ List.mem_cons_self) update mine
          rcases now with regular | ⟨old, new, moving⟩
          · refine keepsKey_of_regular traced.keyed ?_ update mine
            rw [defn, filter]
            exact regular
          · have left := leaves calls ch [] old new rfl moving applied
            rw [← show ((start d f).run calls).defn = d.withDefaults from defn] at moving
            exact keepsKey_of_unmatched moving held left update mine

/-- The one update, in the state a run has led to. -/
theorem moved_iff_leaves (within : ∀ c ∈ calls, c.Within columns)
    (ordinary : Ordinary columns d f calls) (leaves : KeyUpdates columns d f Leaves calls)
    (update : KeyUpdate columns d.withDefaults.primaryKey ch old new)
    (applied : ((start d f).run calls).Applied ch) :
    ((start d f).run calls).Moved ch old new ↔ ((start d f).run calls).Leaves ch old new := by
  have defn : ((start d f).run calls).defn = d.withDefaults := (extends_run _ calls).defn
  refine moved_iff (traced_of_leaves within ordinary leaves)
    (isolated_run (isolated_start d f) calls) (run_start_within within) ?_ ?_ applied
  · rw [defn]
    exact d.primaryKey_ne_nil
  · rw [defn]
    exact update

/-- If every key update moves its row, each takes it out of the shape: the first one that
did not would meet a state in which `moved_iff` applies. -/
theorem leaves_of_moved (within : ∀ c ∈ calls, c.Within columns)
    (ordinary : Ordinary columns d f calls) (moved : KeyUpdates columns d f Moved calls) :
    KeyUpdates columns d f Leaves calls := by
  induction calls using List.reverseRecOn with
  | nil =>
      intro before ch after old new split
      cases before <;> cases split
  | append_singleton calls c ih =>
      have early : ∀ c ∈ calls, c.Within columns := fun c member =>
        within c (List.mem_append_left _ member)
      have leaves := ih early ordinary.init moved.init
      intro before ch after old new split update applied
      rcases List.eq_nil_or_concat after with rfl | ⟨after, last, rfl⟩
      · obtain ⟨rfl, -⟩ := List.append_inj' split rfl
        exact (moved_iff_leaves early ordinary.init leaves update applied).1
          (moved calls ch [] old new split update applied)
      · rw [List.concat_eq_append, ← List.cons_append, ← List.append_assoc] at split
        exact leaves before ch after old new (List.append_inj' split rfl).1 update applied

/-- **The key updates of a run move their rows exactly when each takes its row out of the
shape.** -/
theorem key_update_moves_iff (d : Definition C) (f : Filter) (columns : Finset String)
    (calls : List Call) (within : ∀ c ∈ calls, c.Within columns)
    (ordinary : Ordinary columns d f calls) :
    KeyUpdates columns d f Moved calls ↔ KeyUpdates columns d f Leaves calls := by
  refine ⟨leaves_of_moved within ordinary, fun leaves => ?_⟩
  intro before ch after old new split update applied
  subst split
  refine (moved_iff_leaves (fun c member => within c (List.mem_append_left _ member))
    ordinary.init leaves.init update applied).2 ?_
  exact leaves before ch after old new rfl update applied

end Runs

namespace Todo

def openItems : Filter := ⟨[{ column := "done", op := .eq, value := .bool false }]⟩

/-- Item 1 becomes item 2; only the key of the old row is sent. -/
def renumber (done : Bool) : Change :=
  change .update 10 (some (KeyMap.ofList [("id", .int64 1), ("done", .null)]))
    (some (item 2 done))

theorem renumber_keyUpdate (done : Bool) :
    KeyUpdate {"id", "done"} todo.withDefaults.primaryKey (renumber done)
      (KeyMap.ofList [("id", .int64 1), ("done", .null)]) (item 2 done) where
  update := rfl
  before := rfl
  after := rfl
  oldColumns := by decide
  newColumns := by cases done <;> decide
  keyColumns := by decide
  differs := by cases done <;> decide

/-- The item leaves the open ones while it gets its new number. -/
def leaving : List Call := [.loadSnapshot 5 [some (item 1 false)], .apply (renumber true)]

theorem key_update_moves_iff_renumber :
    ((start todo openItems).run leaving).log.events.map (fun ev => (ev.op, ev.row)) =
        [(.insert, item 1 false), (.delete, item 1 false)] ∧
      ((start todo openItems).run [.loadSnapshot 5 [some (item 1 false)]]).Moved (renumber true)
        (KeyMap.ofList [("id", .int64 1), ("done", .null)]) (item 2 true) := by
  refine ⟨by decide, ?_⟩
  have within : ∀ c ∈ leaving, c.Within {"id", "done"} := by
    intro c member
    simp only [leaving, List.mem_cons, List.not_mem_nil, or_false] at member
    rcases member with rfl | rfl
    · intro row here
      cases List.mem_singleton.1 here
      decide
    · rintro row (sent | sent) <;> cases sent <;> decide
  have only : ∀ ch, .apply ch ∈ leaving → ch = renumber true := by
    intro ch member
    simpa [leaving] using member
  have ordinary : Ordinary {"id", "done"} todo openItems leaving := by
    intro ch member _ _
    cases only ch member
    exact Or.inr ⟨_, _, renumber_keyUpdate true⟩
  have leaves : KeyUpdates {"id", "done"} todo openItems Leaves leaving := by
    intro before ch after old new split update _
    cases only ch (split ▸ List.mem_append_right _ List.mem_cons_self)
    cases update.after
    have filter : ((start todo openItems).run before).filter = openItems :=
      (extends_run _ before).filter
    rw [Leaves, filter]
    decide
  exact (key_update_moves_iff todo openItems {"id", "done"} leaving within ordinary).2 leaves
    [.loadSnapshot 5 [some (item 1 false)]] (renumber true) [] _ _ rfl (renumber_keyUpdate true)
    ⟨by decide, by decide, _, rfl⟩

/-- An open item that stays open is found under the key it no longer has, and the client
that replays the log holds it twice. -/
theorem renumber_open_not_moved :
    KeyUpdate {"id", "done"} todo.withDefaults.primaryKey (renumber false)
        (KeyMap.ofList [("id", .int64 1), ("done", .null)]) (item 2 false) ∧
      ((start todo openItems).run [.loadSnapshot 5 [some (item 1 false)]]).Applied
        (renumber false) ∧
      (((start todo openItems).run [.loadSnapshot 5 [some (item 1 false)]]).apply
        (renumber false)).1.cache.lookup "1" = some (item 2 false) ∧
      (Client.followAll ["id"] ∅ (((start todo openItems).run
        [.loadSnapshot 5 [some (item 1 false)]]).apply (renumber false)).1.log.events).map
          (fun rows => (rows.lookup "1", rows.lookup "2")) =
        .ok (some (item 1 false), some (item 2 false)) ∧
      ¬ ((start todo openItems).run [.loadSnapshot 5 [some (item 1 false)]]).Moved
        (renumber false) (KeyMap.ofList [("id", .int64 1), ("done", .null)]) (item 2 false) := by
  have stored : (((start todo openItems).run [.loadSnapshot 5 [some (item 1 false)]]).apply
      (renumber false)).1.cache.lookup "1" = some (item 2 false) := by decide
  refine ⟨renumber_keyUpdate false, ⟨by decide, by decide, _, rfl⟩, stored, by decide,
    fun moved => ?_⟩
  have gone := moved.left "1" (by decide)
  rw [stored] at gone
  cases gone

end Todo

end Instance

end Tether.Shape
