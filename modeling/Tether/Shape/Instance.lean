/-
# Tether.Shape.Instance — one live shape: filter, log and row cache

`internal/shape/apply.go`.  `apply` projects a change of the write-ahead log into
the shape, `loadSnapshot` seeds it.  Every branch of the source that emits an
event ends the same way: it writes or deletes one cache entry under the instance's
lock and then appends one event to the log.  That ending is `record`, and what a
branch decides is a `Move`: the event's operation, the cache key and the row.

`apply_step` says once what a call can do: nothing to cache and events, or one
move recorded.  `project_sound` says which moves a change can cause.
-/
import Tether.Shape.Filter
import Tether.Shape.Log

namespace Tether.Shape

open Tether.Lib Tether.Wal

set_option autoImplicit false

/-- A registered shape; `C` is the host's claims type.  A nil `Bind` is `none`. -/
structure Definition (C : Type) where
  name : String
  schema : String
  table : String
  primaryKey : List String
  bind : Option (C → Except ShapeError Filter)

structure Instance (C : Type) where
  defn : Definition C
  filter : Filter
  log : Log := .new
  fingerprint : String := ""
  snapshotLSN : LSN := 0
  hasSnapshot : Bool := false
  cache : KeyMap String Row := ∅

/-- What one change does to the shape: `row` is cached under `key`, or `key`
leaves the cache and `row` is the row that left. -/
structure Move where
  op : EventOp
  key : String
  row : Row
  deriving DecidableEq

def Move.cache (m : Move) (cache : KeyMap String Row) : KeyMap String Row :=
  match m.op with
  | .delete => cache.erase m.key
  | _ => cache.insert m.key m.row

/-- The text of one primary key column. -/
def keyPart (row : Row) (col : String) : Except ShapeError String :=
  match row.lookup col with
  | none => .error (.missingPrimaryKey col)
  | some v => .ok (sprint v)

/-- `pkKey`: the texts of the primary key columns, joined by `|`. -/
def pkKey (pk : List String) (row : Row) : Except ShapeError String :=
  if pk = [] then .error .primaryKeyNotConfigured
  else do
    let parts ← pk.mapM (keyPart row)
    return "|".intercalate parts

/-- `patchRow`: the cached columns, then the old ones it lacks, then the new ones
over both. -/
def patchRow (cached old neu : Option Row) : Row :=
  neu.getD ∅ ∪ (cached.getD ∅ ∪ old.getD ∅)

def firstNonNil (a b : Option Row) : Option Row := a.or b

variable {C : Type}

/-- The defaults `NewInstance` and `Register` fill in. -/
def Definition.withDefaults (d : Definition C) : Definition C :=
  { d with
    schema := if d.schema = "" then "public" else d.schema
    table := if d.table = "" then d.name else d.table
    primaryKey := if d.primaryKey = [] then ["id"] else d.primaryKey }

theorem Definition.primaryKey_ne_nil (d : Definition C) : d.withDefaults.primaryKey ≠ [] := by
  by_cases none : d.primaryKey = []
  · simp [withDefaults, none]
  · simp [withDefaults, none]

/-- An empty schema in a change is `public`. -/
def tableMatch (d : Definition C) (ch : Change) : Bool :=
  (if ch.schema = "" then "public" else ch.schema) = d.schema && ch.table = d.table

namespace Instance

/-- The instance `NewInstance` returns once `Bind` has given it a filter. -/
def start (d : Definition C) (f : Filter) : Instance C := { defn := d.withDefaults, filter := f }

/-- `NewInstance`. -/
def new (d : Definition C) (claims : C) : Except ShapeError (Instance C) :=
  match d.bind with
  | none => .error .bindNil
  | some bind => (bind claims).map (start d)

/-- The LSN gate: the snapshot already holds the change. -/
def skips (inst : Instance C) (ch : Change) : Bool :=
  inst.hasSnapshot && ch.commitLSN != 0 && ch.commitLSN ≤ inst.snapshotLSN

/-- The change is one of the shape's table, and past the snapshot. -/
def reaches (inst : Instance C) (ch : Change) : Bool := tableMatch inst.defn ch && !inst.skips ch

/-- Record the first fingerprint, refuse a different one. -/
def checkFingerprint (inst : Instance C) (fp : String) : Except ShapeError (Instance C) :=
  if fp = "" then .ok inst
  else if inst.fingerprint = "" then .ok { inst with fingerprint := fp }
  else if inst.fingerprint ≠ fp then .error (.schemaDrift inst.defn.name)
  else .ok inst

/-- The cache key of a row and the row cached under it; a nil row has neither. -/
def lookup (inst : Instance C) : Option Row → Except ShapeError (String × Option Row)
  | none => .ok ("", none)
  | some row => (pkKey inst.defn.primaryKey row).map fun key => (key, inst.cache.lookup key)

def applyInsert (inst : Instance C) : Option Row → Except ShapeError (Option Move)
  | none => .ok none
  | some neu =>
      if inst.filter.match (some neu) then
        (pkKey inst.defn.primaryKey neu).map fun key => some ⟨.insert, key, neu⟩
      else .ok none

def applyDelete (inst : Instance C) (old : Option Row) : Except ShapeError (Option Move) :=
  (inst.lookup old).map fun (key, cached) =>
    match cached, old with
    | some row, _ => some ⟨.delete, key, row⟩
    | none, none => none
    -- matched but not cached, as after a restart: the delete is still emitted
    | none, some row => if inst.filter.match (some row) then some ⟨.delete, key, row⟩ else none

/-- The row the shape held before an update: the cached one, or an old row that
matches the filter. -/
def beforeRow (inst : Instance C) (cached old : Option Row) : Option Row :=
  cached.or (old.filter fun row => inst.filter.match (some row))

def applyUpdate (inst : Instance C) (old neu : Option Row) : Except ShapeError (Option Move) :=
  (inst.lookup (firstNonNil old neu)).map fun (key, cached) =>
    let after := patchRow cached old neu
    match inst.beforeRow cached old, inst.filter.match (some after) with
    | some _, true => some ⟨.update, key, after⟩
    | some before, false => some ⟨.delete, key, before⟩
    | none, true => some ⟨.insert, key, after⟩
    | none, false => none

/-- The switch on the change's operation. -/
def project (inst : Instance C) (ch : Change) : Except ShapeError (Option Move) :=
  match ch.op with
  | .insert => inst.applyInsert ch.new
  | .delete => inst.applyDelete ch.old
  | .update => inst.applyUpdate ch.old ch.new
  | .unknown text => .error (.unknownOp text)

/-- First half of an emission: write the cache. -/
def writeCache (inst : Instance C) (m : Move) : Instance C :=
  { inst with cache := m.cache inst.cache }

/-- Second half of an emission: append to the log. -/
def appendLog (inst : Instance C) (m : Move) : Instance C × Except ShapeError (List Event) :=
  match inst.log.append m.op inst.defn.table m.row with
  | .error err => (inst, .error err)
  | .ok (ev, log) => ({ inst with log := log }, .ok [ev])

def record (inst : Instance C) (m : Move) : Instance C × Except ShapeError (List Event) :=
  (inst.writeCache m).appendLog m

/-- `Apply`.  The state is returned next to the error: a refused fingerprint halts
the log, and an accepted one stays recorded even if the change then fails. -/
def apply (inst : Instance C) (ch : Change) : Instance C × Except ShapeError (List Event) :=
  match inst.log.halted with
  | some cause => (inst, .error (.halted cause))
  | none =>
      if !tableMatch inst.defn ch then (inst, .ok [])
      else if inst.skips ch then (inst, .ok [])
      else
        match inst.checkFingerprint ch.relationFingerprint with
        | .error err => ({ inst with log := inst.log.halt err }, .error err)
        | .ok inst =>
            match inst.project ch with
            | .error err => (inst, .error err)
            | .ok none => (inst, .ok [])
            | .ok (some m) => inst.record m

/-- The loop of `LoadSnapshot`. -/
def loadRows (inst : Instance C) : List (Option Row) → Instance C × Except ShapeError Unit
  | [] => (inst, .ok ())
  | none :: rows => inst.loadRows rows
  | some row :: rows =>
      if inst.filter.match (some row) then
        match pkKey inst.defn.primaryKey row with
        | .error err => (inst, .error err)
        | .ok key =>
            match inst.record ⟨.insert, key, row⟩ with
            | (inst, .error err) => (inst, .error err)
            | (inst, .ok _) => inst.loadRows rows
      else inst.loadRows rows

def loadSnapshot (inst : Instance C) (lsn : LSN) (rows : List (Option Row)) :
    Instance C × Except ShapeError Unit :=
  match inst.log.halted with
  | some cause => (inst, .error (.halted cause))
  | none => loadRows { inst with snapshotLSN := lsn, hasSnapshot := true } rows

/-- `Materialized`: the cached rows, in the order Go's map iteration happens to
give. -/
def materialized (inst : Instance C) : Multiset Row := inst.cache.values

end Instance

/-! ## Cache keys -/

theorem pkKey_of_present {pk : List String} {row : Row} (nonempty : pk ≠ [])
    (present : ∀ col ∈ pk, col ∈ row) :
    pkKey pk row =
      .ok ("|".intercalate (pk.map fun col => sprint ((row.lookup col).getD .null))) := by
  have parts : pk.mapM (keyPart row) =
      .ok (pk.map fun col => sprint ((row.lookup col).getD .null)) := by
    clear nonempty
    induction pk with
    | nil => rfl
    | cons col cols ih =>
        obtain ⟨v, found⟩ := Finmap.mem_iff.1 (present col List.mem_cons_self)
        simp only [List.mapM_cons, List.map_cons, keyPart, found,
          ih fun c member => present c (List.mem_cons_of_mem _ member)]
        rfl
  simp only [pkKey, nonempty, if_false, parts]
  rfl

theorem present_of_pkKey {pk : List String} {row : Row} {key : String}
    (keyed : pkKey pk row = .ok key) : ∀ col ∈ pk, col ∈ row := by
  have parts : ∃ texts, pk.mapM (keyPart row) = .ok texts := by
    cases read : pk.mapM (keyPart row) with
    | ok texts => exact ⟨texts, rfl⟩
    | error err =>
        simp only [pkKey, read] at keyed
        split at keyed <;> cases keyed
  clear keyed
  induction pk with
  | nil => simp
  | cons col cols ih =>
      obtain ⟨texts, parts⟩ := parts
      rw [List.mapM_cons] at parts
      cases here : row.lookup col with
      | none =>
          simp only [keyPart, here] at parts
          cases parts
      | some v =>
          cases rest : cols.mapM (keyPart row) with
          | error err =>
              simp only [keyPart, here, rest] at parts
              cases parts
          | ok later =>
              intro c member
              rcases List.mem_cons.1 member with rfl | old
              · exact Finmap.mem_iff.2 ⟨v, here⟩
              · exact ih ⟨later, rest⟩ c old

theorem pkKey_congr {pk : List String} {row row' : Row}
    (same : ∀ col ∈ pk, row.lookup col = row'.lookup col) : pkKey pk row = pkKey pk row' := by
  have parts : pk.mapM (keyPart row) = pk.mapM (keyPart row') := by
    induction pk with
    | nil => rfl
    | cons col cols ih =>
        have here : keyPart row col = keyPart row' col := by
          simp only [keyPart, same col List.mem_cons_self]
        simp only [List.mapM_cons, here, ih fun c member => same c (List.mem_cons_of_mem _ member)]
  simp only [pkKey, parts]

namespace Instance

/-! ## What a call can do -/

theorem reaches_iff {inst : Instance C} {ch : Change} :
    inst.reaches ch = true ↔ tableMatch inst.defn ch = true ∧ inst.skips ch = false := by
  simp [reaches]

theorem checkFingerprint_ok {inst inst' : Instance C} {fp : String}
    (accepted : inst.checkFingerprint fp = .ok inst') :
    ∃ fp', inst' = { inst with fingerprint := fp' } := by
  unfold checkFingerprint at accepted
  split_ifs at accepted <;> cases accepted <;> exact ⟨_, rfl⟩

theorem record_live {inst : Instance C} (live : inst.log.halted = none) (m : Move) :
    inst.record m =
      ({ inst with
          cache := m.cache inst.cache
          log := inst.log.push m.op inst.defn.table m.row },
        .ok [⟨inst.log.next, m.op, inst.defn.table, m.row⟩]) := by
  simp [record, writeCache, appendLog, Log.append, live]

/-- The outcomes of `apply`, each with the state it leaves. -/
inductive ApplyStep (inst : Instance C) (ch : Change) :
    Instance C → Except ShapeError (List Event) → Prop where
  | halted {cause : ShapeError} : inst.log.halted = some cause →
      ApplyStep inst ch inst (.error (.halted cause))
  | ignored : inst.log.halted = none → (tableMatch inst.defn ch = false ∨ inst.skips ch = true) →
      ApplyStep inst ch inst (.ok [])
  | drifted {err : ShapeError} : inst.log.halted = none → tableMatch inst.defn ch = true →
      inst.skips ch = false → inst.checkFingerprint ch.relationFingerprint = .error err →
      ApplyStep inst ch { inst with log := inst.log.halt err } (.error err)
  | failed {fp : String} {err : ShapeError} : inst.log.halted = none →
      tableMatch inst.defn ch = true → inst.skips ch = false →
      inst.checkFingerprint ch.relationFingerprint = .ok { inst with fingerprint := fp } →
      inst.project ch = .error err →
      ApplyStep inst ch { inst with fingerprint := fp } (.error err)
  | silent {fp : String} : inst.log.halted = none →
      tableMatch inst.defn ch = true → inst.skips ch = false →
      inst.checkFingerprint ch.relationFingerprint = .ok { inst with fingerprint := fp } →
      inst.project ch = .ok none →
      ApplyStep inst ch { inst with fingerprint := fp } (.ok [])
  | moved {fp : String} {m : Move} : inst.log.halted = none →
      tableMatch inst.defn ch = true → inst.skips ch = false →
      inst.checkFingerprint ch.relationFingerprint = .ok { inst with fingerprint := fp } →
      inst.project ch = .ok (some m) →
      ApplyStep inst ch
        { inst with
          fingerprint := fp
          cache := m.cache inst.cache
          log := inst.log.push m.op inst.defn.table m.row }
        (.ok [⟨inst.log.next, m.op, inst.defn.table, m.row⟩])

theorem apply_step (inst : Instance C) (ch : Change) :
    ApplyStep inst ch (inst.apply ch).1 (inst.apply ch).2 := by
  unfold apply
  cases live : inst.log.halted with
  | some cause => exact .halted live
  | none =>
      by_cases mine : tableMatch inst.defn ch = true
      · by_cases gated : inst.skips ch = true
        · simpa [mine, gated] using ApplyStep.ignored live (Or.inr gated)
        · have passes : inst.skips ch = false := by simpa using gated
          simp only [mine, passes, Bool.not_true, Bool.false_eq_true, if_false]
          cases checked : inst.checkFingerprint ch.relationFingerprint with
          | error err => exact .drifted live mine passes checked
          | ok inst' =>
              obtain ⟨fp, rfl⟩ := checkFingerprint_ok checked
              -- `project` reads neither the fingerprint nor the log
              have same : ({ inst with fingerprint := fp } : Instance C).project ch =
                  inst.project ch := rfl
              simp only [same]
              cases decided : inst.project ch with
              | error err => exact .failed live mine passes checked decided
              | ok move =>
                  cases move with
                  | none => exact .silent live mine passes checked decided
                  | some m =>
                      have stepped := ApplyStep.moved live mine passes checked decided
                      have settled : ({ inst with fingerprint := fp } : Instance C).log.halted =
                        none := live
                      simpa only [record_live settled m] using stepped
      · have foreign : tableMatch inst.defn ch = false := by simpa using mine
        simpa [foreign] using ApplyStep.ignored live (Or.inl foreign)

theorem lookup_ok {inst : Instance C} {row : Option Row} {key : String} {cached : Row}
    (found : inst.lookup row = .ok (key, some cached)) : inst.cache.lookup key = some cached := by
  cases row with
  | none => simp [lookup] at found
  | some row =>
      cases keyed : pkKey inst.defn.primaryKey row with
      | error err => simp [lookup, keyed, Except.map] at found
      | ok k =>
          simp only [lookup, keyed, Except.map, Except.ok.injEq, Prod.mk.injEq] at found
          rw [← found.1, found.2]

theorem beforeRow_sound {inst : Instance C} {row cached old : Option Row} {key : String}
    {before : Row} (found : inst.lookup row = .ok (key, cached))
    (held : inst.beforeRow cached old = some before) :
    inst.cache.lookup key = some before ∨ inst.filter.match (some before) = true := by
  cases cached with
  | some r =>
      simp only [beforeRow, Option.some_or, Option.some.injEq] at held
      exact Or.inl (held ▸ lookup_ok found)
  | none =>
      simp only [beforeRow, Option.none_or, Option.filter_eq_some_iff] at held
      exact Or.inr held.2

/-- The row of a move matches the filter, or the move takes it out of the cache. -/
def Supported (inst : Instance C) (m : Move) : Prop :=
  inst.filter.match (some m.row) = true ∨
    (m.op = .delete ∧ inst.cache.lookup m.key = some m.row)

theorem applyInsert_some {inst : Instance C} {neu : Option Row} {m : Move}
    (decided : inst.applyInsert neu = .ok (some m)) :
    ∃ key row, m = ⟨.insert, key, row⟩ ∧ neu = some row ∧ inst.filter.match (some row) = true ∧
      pkKey inst.defn.primaryKey row = .ok key := by
  cases neu with
  | none => simp [applyInsert] at decided
  | some row =>
      simp only [applyInsert] at decided
      split at decided
      · next matched =>
          cases keyed : pkKey inst.defn.primaryKey row with
          | error err => simp [keyed, Except.map] at decided
          | ok key =>
              simp only [keyed, Except.map, Except.ok.injEq, Option.some.injEq] at decided
              exact ⟨key, row, decided.symm, rfl, matched, keyed⟩
      · simp at decided

/-- A deleted row was cached, or was sent and matches. -/
theorem applyDelete_some {inst : Instance C} {old : Option Row} {m : Move}
    (decided : inst.applyDelete old = .ok (some m)) :
    ∃ key row, m = ⟨.delete, key, row⟩ ∧
      (inst.lookup old = .ok (key, some row) ∨
        inst.lookup old = .ok (key, none) ∧ old = some row ∧
          inst.filter.match (some row) = true) := by
  cases found : inst.lookup old with
  | error err => simp [applyDelete, found, Except.map] at decided
  | ok entry =>
      obtain ⟨key, cached⟩ := entry
      simp only [applyDelete, found, Except.map, Except.ok.injEq] at decided
      split at decided
      · cases decided
        exact ⟨_, _, rfl, Or.inl rfl⟩
      · cases decided
      · split at decided
        · next matched =>
            cases decided
            exact ⟨_, _, rfl, Or.inr ⟨rfl, rfl, matched⟩⟩
        · cases decided

theorem applyInsert_sound {inst : Instance C} {neu : Option Row} {m : Move}
    (decided : inst.applyInsert neu = .ok (some m)) : inst.Supported m := by
  obtain ⟨key, row, rfl, -, matched, -⟩ := applyInsert_some decided
  exact Or.inl matched

theorem applyDelete_sound {inst : Instance C} {old : Option Row} {m : Move}
    (decided : inst.applyDelete old = .ok (some m)) : inst.Supported m := by
  obtain ⟨key, row, rfl, cached | ⟨-, -, matched⟩⟩ := applyDelete_some decided
  · exact Or.inr ⟨rfl, lookup_ok cached⟩
  · exact Or.inl matched

theorem applyUpdate_sound {inst : Instance C} {old neu : Option Row} {m : Move}
    (decided : inst.applyUpdate old neu = .ok (some m)) : inst.Supported m := by
  cases found : inst.lookup (firstNonNil old neu) with
  | error err => simp [applyUpdate, found, Except.map] at decided
  | ok entry =>
      obtain ⟨key, cached⟩ := entry
      simp only [applyUpdate, found, Except.map, Except.ok.injEq] at decided
      split at decided
      · rename_i matched
        simp only [Option.some.injEq] at decided
        subst decided
        exact Or.inl matched
      · rename_i before held _
        simp only [Option.some.injEq] at decided
        subst decided
        exact (beforeRow_sound found held).symm.imp id fun cached => ⟨rfl, cached⟩
      · rename_i matched
        simp only [Option.some.injEq] at decided
        subst decided
        exact Or.inl matched
      · simp at decided

/-- **Which moves a change can cause.** -/
theorem project_sound {inst : Instance C} {ch : Change} {m : Move}
    (decided : inst.project ch = .ok (some m)) : inst.Supported m := by
  unfold project at decided
  split at decided
  · exact applyInsert_sound decided
  · exact applyDelete_sound decided
  · exact applyUpdate_sound decided
  · simp at decided

/-! ## Rows under their own keys -/

theorem record_frame (inst : Instance C) (m : Move) :
    (inst.record m).1.cache = m.cache inst.cache ∧ (inst.record m).1.defn = inst.defn ∧
      (inst.record m).1.filter = inst.filter := by
  unfold record appendLog
  split <;> exact ⟨rfl, rfl, rfl⟩

/-- Every cached row is stored under its own key. -/
def Keyed (inst : Instance C) : Prop :=
  ∀ key row, inst.cache.lookup key = some row → pkKey inst.defn.primaryKey row = .ok key

theorem keyed_insert {inst : Instance C} (keyed : inst.Keyed) {key : String} {row : Row}
    (own : pkKey inst.defn.primaryKey row = .ok key) :
    (inst.record ⟨.insert, key, row⟩).1.Keyed := by
  obtain ⟨cache, defn, -⟩ := inst.record_frame ⟨.insert, key, row⟩
  intro key' row' found
  rw [cache] at found
  rw [defn]
  simp only [Move.cache, KeyMap.lookup_insert_eq] at found
  split at found
  · cases found
    simp [*]
  · exact keyed key' row' found

end Instance

end Tether.Shape
