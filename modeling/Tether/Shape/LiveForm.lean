/-
# Tether.Shape.LiveForm — a cache that holds rows in two forms

`LoadSnapshot` caches rows as pgx scans them.  `Apply` caches rows as they come back
from `change_log`, where an integer has become a `float64`, and an update can leave a
row with columns of both kinds.

`Instance.liveForm` reads every cached row as it would come back.  It is enough that
the two forms of a column have one text where it is part of the key and one verdict
where the filter looks at it (`SteadyRow`): then a change decides the same on the cache
and on its live form (`project_liveForm`), and the simulation of `Refinement` carries
over to a cache of mixed rows (`Reflects`).
-/
import Tether.Shape.Refinement
import Tether.Wal.RoundTrip

namespace Tether

open Lib Wal

set_option autoImplicit false

variable (exotic : Value → Option Json)

/-- A row as it comes back from `change_log`. -/
def Wal.Row.liveForm (row : Row) : Row := KeyMap.mapValues (fun _ v => v.readBack exotic) row

theorem Wal.Row.lookup_liveForm (row : Row) (col : String) :
    (row.liveForm exotic).lookup col = (row.lookup col).map (Value.readBack exotic) :=
  KeyMap.lookup_mapValues _ row col

theorem Wal.Row.liveForm_union (row row' : Row) :
    Row.liveForm exotic (row ∪ row') = row.liveForm exotic ∪ row'.liveForm exotic := by
  refine Finmap.ext_lookup fun col => ?_
  rw [KeyMap.lookup_union_eq, Row.lookup_liveForm, Row.lookup_liveForm, Row.lookup_liveForm,
    KeyMap.lookup_union_eq]
  cases row.lookup col <;> rfl

/-- The rows of the change are as `change_log` gives them back. -/
structure Wal.Change.Live (ch : Change) : Prop where
  old : ch.old.map (Row.liveForm exotic) = ch.old
  new : ch.new.map (Row.liveForm exotic) = ch.new

namespace Shape

/-! ## Columns with one text and one verdict -/

theorem Predicate.match_absent {p : Predicate} {row row' : Row}
    (absent : row.lookup p.column = none) (absent' : row'.lookup p.column = none) :
    p.match row = p.match row' := by
  cases op : p.op <;> simp [Predicate.match, op, absent, absent']

/-- Where the key or the filter reads the column, its two forms read alike. -/
structure SteadyColumn (pk : List String) (f : Filter) (col : String) (v : Value) : Prop where
  text : col ∈ pk → sprint (v.readBack exotic) = sprint v
  verdict : ∀ p ∈ f.preds, p.column = col → p.accepts (v.readBack exotic) = p.accepts v

def SteadyRow (pk : List String) (f : Filter) (row : Row) : Prop :=
  ∀ col v, row.lookup col = some v → SteadyColumn exotic pk f col v

instance (pk : List String) (f : Filter) (col : String) (v : Value) :
    Decidable (SteadyColumn exotic pk f col v) :=
  decidable_of_iff ((col ∈ pk → sprint (v.readBack exotic) = sprint v) ∧
      ∀ p ∈ f.preds, p.column = col → p.accepts (v.readBack exotic) = p.accepts v)
    ⟨fun ⟨text, verdict⟩ => ⟨text, verdict⟩, fun steady => ⟨steady.text, steady.verdict⟩⟩

instance (pk : List String) (f : Filter) (row : Row) : Decidable (SteadyRow exotic pk f row) :=
  decidable_of_iff (row.all fun col v => SteadyColumn exotic pk f col v)
    ((KeyMap.all_iff row _).trans (by simp [SteadyRow]))

variable {exotic} {pk : List String} {f : Filter} {row row' : Row}

theorem steady_of_live (live : row.liveForm exotic = row) : SteadyRow exotic pk f row := by
  intro col v found
  have kept : v.readBack exotic = v := by
    have back := Row.lookup_liveForm exotic row col
    rw [live, found] at back
    exact (Option.some.inj back).symm
  exact ⟨fun _ => by rw [kept], fun _ _ _ => by rw [kept]⟩

theorem SteadyRow.union (steady : SteadyRow exotic pk f row)
    (steady' : SteadyRow exotic pk f row') : SteadyRow exotic pk f (row ∪ row') := by
  intro col v found
  rw [KeyMap.lookup_union_eq] at found
  cases here : row.lookup col with
  | some w =>
      rw [here] at found
      cases found
      exact steady col v here
  | none =>
      rw [here, Option.none_or] at found
      exact steady' col v found

theorem steady_empty : SteadyRow exotic pk f ∅ := fun _ _ found => by simp at found

theorem SteadyRow.pkKey_liveForm (steady : SteadyRow exotic pk f row) :
    pkKey pk (row.liveForm exotic) = pkKey pk row := by
  have parts : ∀ cols : List String, cols ⊆ pk →
      cols.mapM (keyPart (row.liveForm exotic)) = cols.mapM (keyPart row) := by
    intro cols within
    induction cols with
    | nil => rfl
    | cons col cols ih =>
        have part : keyPart (row.liveForm exotic) col = keyPart row col := by
          rw [keyPart, keyPart, Row.lookup_liveForm]
          cases found : row.lookup col with
          | none => rfl
          | some v =>
              exact congrArg Except.ok
                ((steady col v found).text (within List.mem_cons_self))
        rw [List.mapM_cons, List.mapM_cons, part, ih (List.subset_of_cons_subset within)]
  rw [pkKey, pkKey, parts pk (List.Subset.refl pk)]

theorem SteadyRow.match_liveForm (steady : SteadyRow exotic pk f row) :
    f.match (some (row.liveForm exotic)) = f.match (some row) := by
  have each : ∀ p ∈ f.preds, p.match (row.liveForm exotic) = p.match row := by
    intro p member
    have back := Row.lookup_liveForm exotic row p.column
    cases found : row.lookup p.column with
    | none =>
        rw [found] at back
        exact Predicate.match_absent back found
    | some v =>
        rw [found] at back
        rw [Predicate.match_of_lookup back, Predicate.match_of_lookup found]
        exact (steady p.column v found).verdict p member rfl
  rw [Filter.match, Filter.match, Bool.eq_iff_iff, List.all_eq_true, List.all_eq_true]
  exact forall₂_congr fun p member => by rw [each p member]

theorem SteadyRow.patchRow {cached old neu : Option Row}
    (cache : ∀ r ∈ cached, SteadyRow exotic pk f r) (before : ∀ r ∈ old, SteadyRow exotic pk f r)
    (after : ∀ r ∈ neu, SteadyRow exotic pk f r) :
    SteadyRow exotic pk f (patchRow cached old neu) := by
  have each : ∀ row : Option Row, (∀ r ∈ row, SteadyRow exotic pk f r) →
      SteadyRow exotic pk f (row.getD ∅) := by
    intro row all
    cases row with
    | none => exact steady_empty
    | some r => exact all r rfl
  exact (each neu after).union ((each cached cache).union (each old before))

theorem patchRow_liveForm (cached old neu : Option Row) :
    (patchRow cached old neu).liveForm exotic =
      patchRow (cached.map (Row.liveForm exotic)) (old.map (Row.liveForm exotic))
        (neu.map (Row.liveForm exotic)) := by
  have each : ∀ row : Option Row,
      Row.liveForm exotic (row.getD ∅) = (row.map (Row.liveForm exotic)).getD ∅ := by
    intro row
    cases row with
    | none =>
        refine Finmap.ext_lookup fun col => ?_
        rw [Row.lookup_liveForm]
        simp
    | some r => rfl
  rw [patchRow, patchRow, Row.liveForm_union, Row.liveForm_union, each, each, each]

/-! ## One change -/

variable {C : Type}

variable (exotic) in
/-- The instance with every cached row as it would come back. -/
def Instance.liveForm (inst : Instance C) : Instance C :=
  { inst with cache := KeyMap.mapValues (fun _ row => row.liveForm exotic) inst.cache }

variable (exotic) in
def Move.liveForm (m : Move) : Move := { m with row := m.row.liveForm exotic }

variable (exotic) in
/-- Every cached row is steady for the instance's key and filter. -/
def Instance.SteadyCache (inst : Instance C) : Prop :=
  ∀ key row, inst.cache.lookup key = some row →
    SteadyRow exotic inst.defn.primaryKey inst.filter row

variable {inst : Instance C} {ch : Change}

theorem Move.cache_liveForm (m : Move) (cache : KeyMap String Row) :
    (m.liveForm exotic).cache (KeyMap.mapValues (fun _ row => row.liveForm exotic) cache) =
      KeyMap.mapValues (fun _ row => row.liveForm exotic) (m.cache cache) := by
  refine Finmap.ext_lookup fun key => ?_
  cases op : m.op <;>
    simp only [Move.cache, Move.liveForm, op, KeyMap.lookup_mapValues, KeyMap.lookup_insert_eq,
      KeyMap.lookup_erase_eq] <;>
    split <;> rfl

theorem Instance.SteadyCache.move (steady : inst.SteadyCache exotic) {m : Move}
    (own : SteadyRow exotic inst.defn.primaryKey inst.filter m.row) :
    (inst.writeCache m).SteadyCache exotic := by
  intro key row found
  simp only [Instance.writeCache, Move.cache] at found
  split at found
  · rw [KeyMap.lookup_erase_eq] at found
    split at found
    · cases found
    · exact steady key row found
  · rw [KeyMap.lookup_insert_eq] at found
    split at found
    · cases found
      exact own
    · exact steady key row found

variable (exotic) in
/-- A live row finds the cached one, in either form of the cache. -/
theorem Instance.lookup_liveForm (inst : Instance C) (row : Option Row) :
    (inst.liveForm exotic).lookup row =
      (inst.lookup row).map fun found => (found.1, found.2.map (Row.liveForm exotic)) := by
  cases row with
  | none => rfl
  | some r =>
      show (pkKey inst.defn.primaryKey r).map _ = ((pkKey inst.defn.primaryKey r).map _).map _
      cases pkKey inst.defn.primaryKey r with
      | error err => rfl
      | ok key =>
          show Except.ok (key, (KeyMap.mapValues _ inst.cache).lookup key) = _
          rw [KeyMap.lookup_mapValues]
          rfl

theorem Instance.applyDelete_liveForm (steady : inst.SteadyCache exotic) {old : Option Row}
    (live : old.map (Row.liveForm exotic) = old) :
    (inst.liveForm exotic).applyDelete old =
        (inst.applyDelete old).map (Option.map (Move.liveForm exotic)) ∧
      ∀ m, inst.applyDelete old = .ok (some m) →
        SteadyRow exotic inst.defn.primaryKey inst.filter m.row := by
  have found := inst.lookup_liveForm exotic old
  unfold Instance.applyDelete
  rw [found]
  cases looked : inst.lookup old with
  | error err => exact ⟨rfl, fun m absurd => by cases absurd⟩
  | ok entry =>
      obtain ⟨key, cached⟩ := entry
      simp only [Except.map, Except.ok.injEq]
      cases cached with
      | some r =>
          refine ⟨by cases old <;> rfl, fun m decided => ?_⟩
          have same : m = ⟨.delete, key, r⟩ := by
            cases old <;> exact (Option.some.inj decided).symm
          rw [same]
          exact steady key r (Instance.lookup_ok looked)
      | none =>
          cases old with
          | none => exact ⟨rfl, fun m absurd => by cases absurd⟩
          | some r =>
              have own : r.liveForm exotic = r := Option.some.inj live
              have filter : (inst.liveForm exotic).filter = inst.filter := rfl
              simp only [Option.map_none, filter]
              split
              · refine ⟨by simp [Move.liveForm, own], fun m decided => ?_⟩
                cases decided
                exact steady_of_live own
              · exact ⟨rfl, fun m absurd => by cases absurd⟩

theorem Instance.applyInsert_liveForm {neu : Option Row}
    (live : neu.map (Row.liveForm exotic) = neu) :
    (inst.liveForm exotic).applyInsert neu =
        (inst.applyInsert neu).map (Option.map (Move.liveForm exotic)) ∧
      ∀ m, inst.applyInsert neu = .ok (some m) →
        SteadyRow exotic inst.defn.primaryKey inst.filter m.row := by
  cases neu with
  | none => exact ⟨rfl, fun m absurd => by cases absurd⟩
  | some r =>
      have own : r.liveForm exotic = r := Option.some.inj live
      have defn : (inst.liveForm exotic).defn = inst.defn := rfl
      have filter : (inst.liveForm exotic).filter = inst.filter := rfl
      simp only [Instance.applyInsert, defn, filter]
      split
      · cases pkKey inst.defn.primaryKey r with
        | error err => exact ⟨rfl, fun m absurd => by cases absurd⟩
        | ok key =>
            refine ⟨by simp [Except.map, Move.liveForm, own], fun m decided => ?_⟩
            cases decided
            exact steady_of_live own
      · exact ⟨rfl, fun m absurd => by cases absurd⟩

theorem Instance.beforeRow_liveForm {cached old : Option Row}
    (live : old.map (Row.liveForm exotic) = old) :
    (inst.liveForm exotic).beforeRow (cached.map (Row.liveForm exotic)) old =
      (inst.beforeRow cached old).map (Row.liveForm exotic) := by
  cases cached with
  | some r => rfl
  | none =>
      cases old with
      | none => rfl
      | some r =>
          have own : r.liveForm exotic = r := Option.some.inj live
          have filter : (inst.liveForm exotic).filter = inst.filter := rfl
          simp only [Instance.beforeRow, Option.map_none, Option.none_or, filter, Option.filter]
          split <;> simp [own]

theorem Instance.applyUpdate_liveForm (steady : inst.SteadyCache exotic) {old neu : Option Row}
    (before : old.map (Row.liveForm exotic) = old) (after : neu.map (Row.liveForm exotic) = neu) :
    (inst.liveForm exotic).applyUpdate old neu =
        (inst.applyUpdate old neu).map (Option.map (Move.liveForm exotic)) ∧
      ∀ m, inst.applyUpdate old neu = .ok (some m) →
        SteadyRow exotic inst.defn.primaryKey inst.filter m.row := by
  have found := inst.lookup_liveForm exotic (firstNonNil old neu)
  unfold Instance.applyUpdate
  rw [found]
  cases looked : inst.lookup (firstNonNil old neu) with
  | error err => exact ⟨rfl, fun m absurd => by cases absurd⟩
  | ok entry =>
      obtain ⟨key, cached⟩ := entry
      have liveOption : ∀ row : Option Row, row.map (Row.liveForm exotic) = row →
          ∀ r ∈ row, SteadyRow exotic inst.defn.primaryKey inst.filter r := by
        rintro row live r rfl
        exact steady_of_live (Option.some.inj live)
      have held : ∀ r ∈ cached, SteadyRow exotic inst.defn.primaryKey inst.filter r := by
        rintro r rfl
        exact steady key r (Instance.lookup_ok looked)
      have patched : SteadyRow exotic inst.defn.primaryKey inst.filter (patchRow cached old neu) :=
        SteadyRow.patchRow held (liveOption old before) (liveOption neu after)
      have merged : patchRow (cached.map (Row.liveForm exotic)) old neu =
          (patchRow cached old neu).liveForm exotic := by
        rw [patchRow_liveForm, before, after]
      have filter : (inst.liveForm exotic).filter = inst.filter := rfl
      simp only [Except.map, Instance.beforeRow_liveForm before, merged, filter,
        patched.match_liveForm, Except.ok.injEq]
      cases prior : inst.beforeRow cached old with
      | none =>
          cases inst.filter.match (some (patchRow cached old neu)) with
          | false => exact ⟨rfl, fun m absurd => by cases absurd⟩
          | true =>
              refine ⟨rfl, fun m decided => ?_⟩
              cases decided
              exact patched
      | some r =>
          have own : SteadyRow exotic inst.defn.primaryKey inst.filter r := by
            cases cached with
            | some c =>
                cases prior
                exact held r rfl
            | none =>
                rw [Instance.beforeRow, Option.none_or, Option.filter_eq_some_iff] at prior
                exact liveOption old before r prior.1
          cases inst.filter.match (some (patchRow cached old neu)) with
          | false =>
              refine ⟨rfl, fun m decided => ?_⟩
              cases decided
              exact own
          | true =>
              refine ⟨rfl, fun m decided => ?_⟩
              cases decided
              exact patched

/-- **A live change decides the same on both forms of the cache**, and what it writes
is steady again. -/
theorem Instance.project_liveForm (steady : inst.SteadyCache exotic) (live : ch.Live exotic) :
    (inst.liveForm exotic).project ch =
        (inst.project ch).map (Option.map (Move.liveForm exotic)) ∧
      ∀ m, inst.project ch = .ok (some m) →
        SteadyRow exotic inst.defn.primaryKey inst.filter m.row := by
  unfold Instance.project
  cases ch.op with
  | insert => exact Instance.applyInsert_liveForm live.new
  | delete => exact Instance.applyDelete_liveForm steady live.old
  | update => exact Instance.applyUpdate_liveForm steady live.old live.new
  | unknown text => exact ⟨rfl, fun m absurd => by cases absurd⟩

/-! ## Mixed caches -/

variable {rel : Relation} {d : Definition C} {n : LSN} {fp : String} {t t' : Table rel}

variable (exotic) in
/-- The live form of the cache mirrors the table. -/
structure Reflects (d : Definition C) (f : Filter) (n : LSN) (fp : String) (inst : Instance C)
    (t : Table rel) : Prop where
  mirrors : Mirrors d f n fp (inst.liveForm exotic) t
  steady : inst.SteadyCache exotic

/-- Everything but the log, whose end may differ. -/
theorem Reflects.congr {inst' : Instance C} (reflects : Reflects exotic d f n fp inst t)
    {log : Log} (same : inst' = { inst with log := log }) (live : log.halted = none) :
    Reflects exotic d f n fp inst' t := by
  subst same
  obtain ⟨⟨-, defn, filter, loaded, position, fingerprint, index⟩, steady⟩ := reflects
  exact ⟨⟨live, defn, filter, loaded, position, fingerprint, index⟩, steady⟩

theorem Reflects.materialized (reflects : Reflects exotic d f n fp inst t) :
    inst.materialized.map (Row.liveForm exotic) = (t.visible f).val := by
  rw [← reflects.mirrors.index.values_eq]
  simp only [Instance.materialized, KeyMap.values, Instance.liveForm, KeyMap.mapValues,
    Multiset.map_map, Function.comp_def]

/-- What the change decides on a cache that reflects the table before the operation
leaves one that reflects the table after it. -/
theorem Reflects.carried (reflects : Reflects exotic d f n fp inst t)
    (distinct : rel.DistinctKeys) (keyed : d.withDefaults.primaryKey = rel.primaryKey)
    {op : RowOp} (stepped : t.step op = some t') (carried : Carries rel op ch)
    (live : ch.Live exotic) {fp' : String} (settled : fp' = "" ∨ fp' = fp) :
    ∃ decision, inst.project ch = .ok decision ∧
      Reflects exotic d f n fp
        { inst with fingerprint := fp', cache := decidedCache inst.cache decision } t' := by
  have clear := Table.clear_of_distinct distinct stepped f
  obtain ⟨decision, decided, written⟩ :=
    project_carried reflects.mirrors clear keyed stepped carried
  obtain ⟨same, own⟩ := Instance.project_liveForm reflects.steady live
  rw [same] at decided
  cases chosen : inst.project ch with
  | error err =>
      rw [chosen] at decided
      cases decided
  | ok choice =>
      rw [chosen] at decided
      cases decided
      have cache : KeyMap.mapValues (fun _ row => row.liveForm exotic)
          (decidedCache inst.cache choice) =
          (inst.liveForm exotic).cache.set (rel.keyText op.target) (f.select op.after) := by
        rw [← written]
        cases choice with
        | none => rfl
        | some m => exact (m.cache_liveForm inst.cache).symm
      have index := reflects.mirrors.index_step clear stepped
      rw [← cache] at index
      obtain ⟨⟨unhalted, defn, filter, loaded, position, -, -⟩, steady⟩ := reflects
      refine ⟨choice, rfl, ⟨unhalted, defn, filter, loaded, position, settled, index⟩, ?_⟩
      cases choice with
      | none => exact steady
      | some m => exact steady.move (own m chosen)

/-! ## Loading -/

/-- `live` is `inst` in live form, except for the events of its log. -/
structure Twins (exotic : Value → Option Json) (inst live : Instance C) : Prop where
  defn : live.defn = inst.defn
  filter : live.filter = inst.filter
  position : live.snapshotLSN = inst.snapshotLSN
  loaded : live.hasSnapshot = inst.hasSnapshot
  fingerprint : live.fingerprint = inst.fingerprint
  halted : live.log.halted = inst.log.halted
  cache : live.cache = (inst.liveForm exotic).cache

theorem Twins.mirrors {live : Instance C} (twins : Twins exotic inst live)
    (mirrors : Mirrors d f n fp live t) : Mirrors d f n fp (inst.liveForm exotic) t where
  live := twins.halted ▸ mirrors.live
  defn := twins.defn ▸ mirrors.defn
  filter := twins.filter ▸ mirrors.filter
  loaded := twins.loaded ▸ mirrors.loaded
  position := twins.position ▸ mirrors.position
  fingerprint := twins.fingerprint ▸ mirrors.fingerprint
  index := twins.cache ▸ mirrors.index

/-- Loading rows and loading their live forms fill twin caches. -/
theorem Twins.loadRows {live : Instance C} (twins : Twins exotic inst live)
    (unhalted : inst.log.halted = none) (steady : inst.SteadyCache exotic) {rows : List Row}
    (each : ∀ r ∈ rows, SteadyRow exotic inst.defn.primaryKey inst.filter r) :
    Twins exotic (inst.loadRows (rows.map some)).1
        (live.loadRows ((rows.map (Row.liveForm exotic)).map some)).1 ∧
      (inst.loadRows (rows.map some)).1.SteadyCache exotic ∧
      (live.loadRows ((rows.map (Row.liveForm exotic)).map some)).2 =
        (inst.loadRows (rows.map some)).2 := by
  induction rows generalizing inst live with
  | nil => exact ⟨twins, steady, rfl⟩
  | cons r rows ih =>
      have own := each r List.mem_cons_self
      have later := fun r' member => each r' (List.mem_cons_of_mem _ member)
      have halted : live.log.halted = none := twins.halted.trans unhalted
      simp only [List.map_cons, Instance.loadRows, twins.filter, twins.defn, own.match_liveForm,
        own.pkKey_liveForm]
      split
      · cases pkKey inst.defn.primaryKey r with
        | error err => exact ⟨twins, steady, rfl⟩
        | ok key =>
            simp only [Instance.record_live unhalted, Instance.record_live halted]
            refine ih ⟨twins.defn, twins.filter, twins.position, twins.loaded, twins.fingerprint,
              twins.halted, ?_⟩ unhalted (steady.move (m := ⟨.insert, key, r⟩) own) later
            dsimp only
            rw [twins.cache]
            exact Move.cache_liveForm ⟨.insert, key, r⟩ inst.cache
      · exact ih twins unhalted steady later

/-- `LoadSnapshot` of rows whose live forms are the rows of the table. -/
theorem loadSnapshot_reflects (distinct : rel.DistinctKeys)
    (keyed : d.withDefaults.primaryKey = rel.primaryKey) (fp : String) {rows : List Row}
    (snapshot : ((rows.map (Row.liveForm exotic) : List Row) : Multiset Row) = (t.visible f).val)
    (each : ∀ r ∈ rows, SteadyRow exotic d.withDefaults.primaryKey f r) :
    ∃ loaded, (Instance.start d f).loadSnapshot n (rows.map some) = (loaded, .ok ()) ∧
      Reflects exotic d f n fp loaded t := by
  obtain ⟨live, seeded, mirrors⟩ :=
    loadSnapshot_mirrors keyed fp (Table.apart_of_distinct distinct t f) (n := n) snapshot
  have twins : Twins exotic
      ({ Instance.start d f with snapshotLSN := n, hasSnapshot := true } : Instance C)
      { Instance.start d f with snapshotLSN := n, hasSnapshot := true } := by
    refine ⟨rfl, rfl, rfl, rfl, rfl, rfl, ?_⟩
    refine Finmap.ext_lookup fun key => ?_
    show _ = (KeyMap.mapValues _ _).lookup key
    rw [KeyMap.lookup_mapValues]
    simp [Instance.start]
  obtain ⟨twin, steady, outcome⟩ :=
    twins.loadRows rfl (fun key row found => by simp [Instance.start] at found) each
  have begun : ∀ rows, (Instance.start d f).loadSnapshot n rows =
      Instance.loadRows { Instance.start d f with snapshotLSN := n, hasSnapshot := true } rows :=
    fun rows => rfl
  rw [begun] at seeded ⊢
  rw [seeded] at twin outcome
  exact ⟨_, Prod.ext rfl outcome.symm, twin.mirrors mirrors, steady⟩

end Shape

end Tether
