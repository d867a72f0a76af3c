/-
# Tether.Shape.Isolation — nothing outside the filter enters a shape

A shape instance is driven by `LoadSnapshot` and `Apply` calls in any order, with
any rows and changes, failing calls included.  `Isolated` is the invariant: every
cached row and every logged row matches the instance's filter.  One move keeps it
(`isolated_move`), hence each call does, hence every run.

The delete case is the one that needs the cache half of the invariant: the row of
a delete event is the cached row, which no branch tests again.
-/
import Tether.Shape.Instance

namespace Tether.Shape

open Tether.Lib Tether.Wal

set_option autoImplicit false

/-- A call on an instance, with arbitrary arguments. -/
inductive Call where
  | loadSnapshot (lsn : LSN) (rows : List (Option Row))
  | apply (ch : Change)

variable {C : Type}

namespace Instance

/-- The state after a call; its error, if any, is for the caller. -/
def call (inst : Instance C) : Call → Instance C
  | .loadSnapshot lsn rows => (inst.loadSnapshot lsn rows).1
  | .apply ch => (inst.apply ch).1

def run (inst : Instance C) (calls : List Call) : Instance C := calls.foldl call inst

/-- Every cached and every logged row matches the filter. -/
structure Isolated (inst : Instance C) : Prop where
  cached : ∀ key row, inst.cache.lookup key = some row → inst.filter.match (some row) = true
  logged : ∀ ev ∈ inst.log.events, inst.filter.match (some ev.row) = true

theorem isolated_start (d : Definition C) (f : Filter) : (start d f).Isolated where
  cached := by simp [start]
  logged := by simp [start, Log.new]

theorem Supported.match {inst : Instance C} {m : Move} (isolated : inst.Isolated)
    (supported : inst.Supported m) : inst.filter.match (some m.row) = true := by
  rcases supported with matched | ⟨-, cached⟩
  · exact matched
  · exact isolated.cached _ _ cached

theorem isolated_move {inst : Instance C} {m : Move} (isolated : inst.Isolated)
    (supported : inst.Supported m) :
    ({ inst with
        cache := m.cache inst.cache
        log := inst.log.push m.op inst.defn.table m.row } : Instance C).Isolated := by
  have matched := supported.match isolated
  refine ⟨fun key row found => ?_, fun ev member => ?_⟩
  · cases op : m.op with
    | delete =>
        simp only [Move.cache, op, KeyMap.lookup_erase_eq] at found
        split at found
        · simp at found
        · exact isolated.cached key row found
    | insert | update =>
        simp only [Move.cache, op, KeyMap.lookup_insert_eq] at found
        split at found
        · cases found
          exact matched
        · exact isolated.cached key row found
  · simp only [Log.push_events, List.mem_append, List.mem_singleton] at member
    rcases member with old | rfl
    · exact isolated.logged ev old
    · exact matched

theorem isolated_apply {inst : Instance C} (isolated : inst.Isolated) (ch : Change) :
    (inst.apply ch).1.Isolated := by
  have stepped := inst.apply_step ch
  generalize inst.apply ch = result at stepped
  obtain ⟨inst', outcome⟩ := result
  cases stepped with
  | halted _ => exact isolated
  | ignored _ _ => exact isolated
  | drifted _ _ _ _ => exact ⟨isolated.cached, isolated.logged⟩
  | failed _ _ _ _ _ => exact ⟨isolated.cached, isolated.logged⟩
  | silent _ _ _ _ _ => exact ⟨isolated.cached, isolated.logged⟩
  | moved _ _ _ _ decided =>
      have moved := isolated_move isolated (project_sound decided)
      exact ⟨moved.cached, moved.logged⟩

theorem isolated_loadRows {inst : Instance C} (live : inst.log.halted = none)
    (isolated : inst.Isolated) (rows : List (Option Row)) : (inst.loadRows rows).1.Isolated := by
  induction rows generalizing inst with
  | nil => exact isolated
  | cons row rows ih =>
      cases row with
      | none => exact ih live isolated
      | some row =>
          simp only [loadRows]
          split
          · rename_i matched
            split
            · exact isolated
            · rename_i key _
              rw [record_live live]
              exact ih live (isolated_move isolated (m := ⟨.insert, key, row⟩) (Or.inl matched))
          · exact ih live isolated

theorem isolated_call {inst : Instance C} (isolated : inst.Isolated) (c : Call) :
    (inst.call c).Isolated := by
  cases c with
  | apply ch => exact isolated_apply isolated ch
  | loadSnapshot lsn rows =>
      simp only [call, loadSnapshot]
      cases live : inst.log.halted with
      | some cause => exact isolated
      | none =>
          have seeded : Isolated { inst with snapshotLSN := lsn, hasSnapshot := true } :=
            ⟨isolated.cached, isolated.logged⟩
          refine isolated_loadRows ?_ seeded rows
          exact live

theorem isolated_run {inst : Instance C} (isolated : inst.Isolated) (calls : List Call) :
    (inst.run calls).Isolated := by
  induction calls generalizing inst with
  | nil => exact isolated
  | cons c calls ih => exact ih (isolated_call isolated c)

/-! ## Frame: filter and definition are fixed, the log only grows -/

/-- What no call touches, and how the log may change. -/
structure Extends (before after : Instance C) : Prop where
  defn : after.defn = before.defn
  filter : after.filter = before.filter
  log : before.log.events <+: after.log.events

theorem Extends.trans {a b c : Instance C} (first : Extends a b) (second : Extends b c) :
    Extends a c :=
  ⟨second.defn.trans first.defn, second.filter.trans first.filter, first.log.trans second.log⟩

theorem extends_apply (inst : Instance C) (ch : Change) : Extends inst (inst.apply ch).1 := by
  have stepped := inst.apply_step ch
  generalize inst.apply ch = result at stepped
  obtain ⟨inst', outcome⟩ := result
  cases stepped with
  | moved _ _ _ _ _ => exact ⟨rfl, rfl, List.prefix_append _ _⟩
  | _ => exact ⟨rfl, rfl, List.prefix_refl _⟩

theorem extends_loadRows (inst : Instance C) (rows : List (Option Row)) :
    Extends inst (inst.loadRows rows).1 := by
  induction rows generalizing inst with
  | nil => exact ⟨rfl, rfl, List.prefix_refl _⟩
  | cons row rows ih =>
      cases row with
      | none => exact ih inst
      | some row =>
          simp only [loadRows]
          split
          · split
            · exact ⟨rfl, rfl, List.prefix_refl _⟩
            · rename_i key _
              cases live : inst.log.halted with
              | none =>
                  rw [record_live live]
                  dsimp only
                  refine Extends.trans ?_ (ih _)
                  exact ⟨rfl, rfl, List.prefix_append _ _⟩
              | some cause =>
                  simp only [record, writeCache, appendLog, Log.append, live]
                  exact ⟨rfl, rfl, List.prefix_refl _⟩
          · exact ih inst

theorem extends_call (inst : Instance C) (c : Call) : Extends inst (inst.call c) := by
  cases c with
  | apply ch => exact extends_apply inst ch
  | loadSnapshot lsn rows =>
      simp only [call, loadSnapshot]
      cases inst.log.halted with
      | some cause => exact ⟨rfl, rfl, List.prefix_refl _⟩
      | none =>
          obtain ⟨defn, filter, log⟩ :=
            extends_loadRows { inst with snapshotLSN := lsn, hasSnapshot := true } rows
          exact ⟨defn, filter, log⟩

theorem extends_run (inst : Instance C) (calls : List Call) : Extends inst (inst.run calls) := by
  induction calls generalizing inst with
  | nil => exact ⟨rfl, rfl, List.prefix_refl _⟩
  | cons c calls ih => exact (extends_call inst c).trans (ih _)

/-- An `Apply` that appends is of a change of the instance's own table. -/
theorem own_table_of_append {inst : Instance C} {ch : Change}
    (grew : (inst.apply ch).1.log.events ≠ inst.log.events) :
    (if ch.schema = "" then "public" else ch.schema) = inst.defn.schema ∧
      ch.table = inst.defn.table := by
  have mine : tableMatch inst.defn ch = true := by
    have stepped := inst.apply_step ch
    generalize inst.apply ch = result at stepped grew
    obtain ⟨inst', outcome⟩ := result
    cases stepped with
    | moved _ mine _ _ _ => exact mine
    | _ => exact absurd rfl grew
  simpa [tableMatch] using mine

/-- **Filter isolation.**  Whatever is called on a new instance, and in whatever
order, its cache and its log hold only rows that match its filter; the log keeps
every event ever appended; and what `Apply` appends comes from the instance's own
schema and table. -/
theorem run_isolated (d : Definition C) (f : Filter) (calls : List Call) :
    (∀ row ∈ ((start d f).run calls).materialized, f.match (some row) = true) ∧
      (∀ ev ∈ ((start d f).run calls).log.events, f.match (some ev.row) = true) ∧
      (∀ later, ((start d f).run calls).log.events <+:
        ((start d f).run (calls ++ later)).log.events) ∧
      (∀ ch, (((start d f).run calls).apply ch).1.log.events ≠
          ((start d f).run calls).log.events →
        (if ch.schema = "" then "public" else ch.schema) = d.withDefaults.schema ∧
          ch.table = d.withDefaults.table) := by
  have isolated := isolated_run (isolated_start d f) calls
  have frame := extends_run (start d f) calls
  have filter : ((start d f).run calls).filter = f := frame.filter
  have defn : ((start d f).run calls).defn = d.withDefaults := frame.defn
  refine ⟨?_, ?_, ?_, ?_⟩
  · intro row member
    obtain ⟨key, found⟩ := (KeyMap.mem_values _ row).1 member
    exact filter ▸ isolated.cached key row found
  · intro ev member
    exact filter ▸ isolated.logged ev member
  · intro later
    simpa [run, List.foldl_append] using (extends_run ((start d f).run calls) later).log
  · intro ch grew
    exact defn ▸ own_table_of_append grew

end Instance

end Tether.Shape
