/-
# Tether.Shape.Refinement — the cache is the filtered table

The simulation between a shape instance and the table it is a view of.  The
relation is `Mirrors`: the cache indexes the matching rows of the table by their
cache key.  One row operation replaces the matching rows that have its key
(`step_visible`), and `project` on a change that carries the operation decides the
same replacement on the cache (`project_carried`).  Runs follow by induction, with
the LSN gate absorbing the commits the snapshot already holds.
-/
import Tether.Shape.Table

namespace Tether.Shape

open Tether.Lib Tether.Wal

set_option autoImplicit false

variable {C : Type} {rel : Relation}

/-! ## Cache keys -/

theorem Relation.pkKey_admitted {row : Row} (ok : rel.admits row = true) :
    pkKey rel.primaryKey row = .ok (rel.keyText row) := by
  have present : ∀ col ∈ rel.primaryKey, col ∈ row := by
    intro col member
    rw [← Finmap.mem_keys, rel.complete row ok]
    exact rel.key_columns col member
  simp only [Relation.keyText, pkKey_of_present rel.key_nonempty present]

theorem Relation.keyText_congr {row row' : Row} (same : rel.keyOf row = rel.keyOf row') :
    rel.keyText row = rel.keyText row' := by
  have lookups : ∀ col ∈ rel.primaryKey, row.lookup col = row'.lookup col :=
    List.map_inj_left.1 same
  simp only [Relation.keyText, pkKey_congr lookups]

/-! ## One row operation -/

/-- The row an operation is about; an update keeps its key. -/
def RowOp.target : RowOp → Row
  | .insert row => row
  | .update before _ => before
  | .delete before => before

/-- The row an operation replaces. -/
def RowOp.before : RowOp → Option Row
  | .insert _ => none
  | .update before _ => some before
  | .delete before => some before

/-- The row an operation leaves. -/
def RowOp.after : RowOp → Option Row
  | .insert row => some row
  | .update _ after => some after
  | .delete _ => none

/-- The row, if it matches the filter. -/
def Filter.select (f : Filter) (row : Option Row) : Option Row :=
  row.filter fun r => f.match (some r)

@[simp] theorem Filter.select_none (f : Filter) : f.select none = none := rfl

theorem Filter.select_some (f : Filter) (r : Row) :
    f.select (some r) = if f.match (some r) then some r else none := by
  simp [select, Option.filter]

theorem Filter.select_eq_some {f : Filter} {row : Option Row} {r : Row} :
    f.select row = some r ↔ row = some r ∧ f.match (some r) = true :=
  Option.filter_eq_some_iff

namespace Table

/-- The rows of the table that match the filter. -/
def visible (t : Table rel) (f : Filter) : Finset Row := t.rows.filter fun r => f.match (some r)

theorem mem_visible {t : Table rel} {f : Filter} {r : Row} :
    r ∈ t.visible f ↔ r ∈ t.rows ∧ f.match (some r) = true := by
  simp [visible]

/-- What an operation replaces is in the table, and is what it is about. -/
theorem step_before {t t' : Table rel} {op : RowOp} (stepped : t.step op = some t') {r : Row}
    (replaced : op.before = some r) : r ∈ t.rows ∧ op.target = r := by
  cases op with
  | insert _ => cases replaced
  | update before after =>
      simp only [step, Option.dite_none_right_eq_some] at stepped
      cases replaced
      exact ⟨stepped.1.1, rfl⟩
  | delete before =>
      simp only [step, Option.ite_none_right_eq_some] at stepped
      cases replaced
      exact ⟨stepped.1, rfl⟩

theorem step_target {t t' : Table rel} {op : RowOp} (stepped : t.step op = some t') :
    rel.admits op.target = true := by
  cases op with
  | insert row =>
      simp only [step, Option.dite_none_right_eq_some] at stepped
      exact stepped.1.1
  | update before after => exact t.admitted before (step_before stepped rfl).1
  | delete before => exact t.admitted before (step_before stepped rfl).1

/-- In the table only the row that an operation replaces has its primary key. -/
theorem step_unique {t t' : Table rel} {op : RowOp} (stepped : t.step op = some t') {r : Row}
    (member : r ∈ t.rows) (same : rel.keyOf r = rel.keyOf op.target) : op.before = some r := by
  cases op with
  | insert row =>
      simp only [step, Option.dite_none_right_eq_some] at stepped
      exact absurd same (stepped.1.2 r member)
  | update before after =>
      rw [t.unique r member before (step_before stepped rfl).1 same]
      rfl
  | delete before =>
      rw [t.unique r member before (step_before stepped rfl).1 same]
      rfl

/-- The rows after an operation: those it does not replace, and the row it leaves. -/
theorem step_rows {t t' : Table rel} {op : RowOp} (stepped : t.step op = some t') (r : Row) :
    r ∈ t'.rows ↔ (r ∈ t.rows ∧ op.before ≠ some r) ∨ op.after = some r := by
  cases op with
  | insert row =>
      simp only [step, Option.dite_none_right_eq_some, Option.some.injEq] at stepped
      obtain ⟨-, rfl⟩ := stepped
      simp only [insert, Finset.mem_insert, RowOp.before, RowOp.after, Option.some.injEq]
      grind
  | update before after =>
      simp only [step, Option.dite_none_right_eq_some, Option.some.injEq] at stepped
      obtain ⟨-, rfl⟩ := stepped
      simp only [update, insert, delete, Finset.mem_insert, Finset.mem_erase, RowOp.before,
        RowOp.after, Option.some.injEq]
      grind
  | delete before =>
      simp only [step, Option.ite_none_right_eq_some, Option.some.injEq] at stepped
      obtain ⟨-, rfl⟩ := stepped
      simp only [delete, Finset.mem_erase, RowOp.before, RowOp.after, reduceCtorEq, or_false]
      grind

/-- The row an operation leaves has the operation's key. -/
theorem step_keyOf {t t' : Table rel} {op : RowOp} (stepped : t.step op = some t') {row : Row}
    (left : op.after = some row) : rel.keyOf row = rel.keyOf op.target := by
  cases op with
  | insert _ =>
      cases left
      rfl
  | update before after =>
      simp only [step, Option.dite_none_right_eq_some] at stepped
      cases left
      exact stepped.1.2.2
  | delete _ => cases left

theorem step_keyText {t t' : Table rel} {op : RowOp} (stepped : t.step op = some t') {row : Row}
    (left : op.after = some row) : rel.keyText row = rel.keyText op.target :=
  rel.keyText_congr (step_keyOf stepped left)

/-- No matching row but the one the operation replaces has the operation's cache key. -/
def Clear (t : Table rel) (f : Filter) (op : RowOp) : Prop :=
  ∀ r ∈ t.visible f, rel.keyText r = rel.keyText op.target → op.before = some r

/-- Matching rows have cache keys of their own. -/
def Apart (t : Table rel) (f : Filter) : Prop :=
  ∀ r ∈ t.visible f, ∀ r' ∈ t.visible f, rel.keyText r = rel.keyText r' → r = r'

instance (t : Table rel) (f : Filter) (op : RowOp) : Decidable (t.Clear f op) :=
  inferInstanceAs (Decidable (∀ r ∈ t.visible f, _ → _))

instance (t : Table rel) (f : Filter) : Decidable (t.Apart f) :=
  inferInstanceAs (Decidable (∀ r ∈ t.visible f, ∀ r' ∈ t.visible f, _ → _))

theorem clear_of_distinct (distinct : rel.DistinctKeys) {t t' : Table rel} {op : RowOp}
    (stepped : t.step op = some t') (f : Filter) : t.Clear f op := by
  intro r visible same
  have member := (mem_visible.1 visible).1
  exact step_unique stepped member
    (distinct r op.target (t.admitted r member) (step_target stepped) same)

theorem apart_of_distinct (distinct : rel.DistinctKeys) (t : Table rel) (f : Filter) :
    t.Apart f := by
  intro r visible r' visible' same
  have member := (mem_visible.1 visible).1
  have member' := (mem_visible.1 visible').1
  exact t.unique r member r' member'
    (distinct r r' (t.admitted r member) (t.admitted r' member') same)

theorem step_visible {t t' : Table rel} {op : RowOp} {f : Filter} (clear : t.Clear f op)
    (stepped : t.step op = some t') :
    t'.visible f =
      (t.visible f).filter (rel.keyText · ≠ rel.keyText op.target) ∪
        (f.select op.after).toFinset := by
  have replaced : ∀ r ∈ t.visible f,
      (op.before ≠ some r ↔ rel.keyText r ≠ rel.keyText op.target) := by
    refine fun r visible => not_congr ⟨fun held => ?_, clear r visible⟩
    rw [(step_before stepped held).2]
  ext r
  simp only [mem_visible] at replaced
  simp only [mem_visible, Finset.mem_union, Finset.mem_filter, Option.mem_toFinset,
    Option.mem_def, Filter.select_eq_some, step_rows stepped]
  have here := replaced r
  tauto

/-- An operation on a row that the shape does not see changes nothing for it. -/
theorem visible_eq_iff {t t' : Table rel} {op : RowOp} {f : Filter}
    (stepped : t.step op = some t') :
    t'.visible f = t.visible f ↔ f.select op.before = f.select op.after := by
  have after_mem : ∀ r, f.select op.after = some r → r ∈ t'.visible f := by
    intro r selected
    obtain ⟨left, matched⟩ := Filter.select_eq_some.1 selected
    exact mem_visible.2 ⟨(step_rows stepped r).2 (.inr left), matched⟩
  constructor
  · intro same
    cases before : f.select op.before with
    | some r =>
        -- the row replaced is still there, so it is the one left
        obtain ⟨replaced, matched⟩ := Filter.select_eq_some.1 before
        have member := (step_before stepped replaced).1
        have stays : r ∈ t'.visible f := same ▸ mem_visible.2 ⟨member, matched⟩
        rcases (step_rows stepped r).1 (mem_visible.1 stays).1 with ⟨-, other⟩ | left
        · exact absurd replaced other
        · exact (Filter.select_eq_some.2 ⟨left, matched⟩).symm
    | none =>
        cases after : f.select op.after with
        | none => rfl
        | some r =>
            -- the row left was there, so it is the one replaced
            obtain ⟨left, matched⟩ := Filter.select_eq_some.1 after
            have was : r ∈ t.visible f := same ▸ after_mem r after
            have replaced := step_unique stepped (mem_visible.1 was).1 (step_keyOf stepped left)
            rw [replaced, Filter.select_some, if_pos matched] at before
            cases before
  · intro same
    ext r
    constructor
    · intro stays
      obtain ⟨member, matched⟩ := mem_visible.1 stays
      rcases (step_rows stepped r).1 member with ⟨old, -⟩ | left
      · exact mem_visible.2 ⟨old, matched⟩
      · have selected := same.trans (Filter.select_eq_some.2 ⟨left, matched⟩)
        exact mem_visible.2
          ⟨(step_before stepped (Filter.select_eq_some.1 selected).1).1, matched⟩
    · intro was
      obtain ⟨member, matched⟩ := mem_visible.1 was
      by_cases replaced : op.before = some r
      · have selected : f.select op.before = some r :=
          Filter.select_eq_some.2 ⟨replaced, matched⟩
        exact after_mem r (same ▸ selected)
      · exact mem_visible.2 ⟨(step_rows stepped r).2 (.inl ⟨member, replaced⟩), matched⟩

end Table

/-! ## One change -/

/-- The cache after a decision. -/
def decidedCache (cache : KeyMap String Row) : Option Move → KeyMap String Row
  | none => cache
  | some m => m.cache cache

/-- The simulation relation, for a shape loaded at `n` from a table whose changes
have the fingerprint `fp`. -/
structure Mirrors (d : Definition C) (f : Filter) (n : LSN) (fp : String) (inst : Instance C)
    (t : Table rel) : Prop where
  live : inst.log.halted = none
  defn : inst.defn = d.withDefaults
  filter : inst.filter = f
  loaded : inst.hasSnapshot = true
  position : inst.snapshotLSN = n
  fingerprint : inst.fingerprint = "" ∨ inst.fingerprint = fp
  index : KeyMap.Indexes rel.keyText inst.cache (t.visible f)

variable {d : Definition C} {f : Filter} {n : LSN} {fp : String} {inst : Instance C}
  {t t' : Table rel}

/-- Before an operation the cache holds its row if that is in the shape. -/
theorem Mirrors.lookup_target (mirrors : Mirrors d f n fp inst t) {op : RowOp}
    (clear : t.Clear f op) (stepped : t.step op = some t') :
    inst.cache.lookup (rel.keyText op.target) = f.select op.before := by
  cases held : f.select op.before with
  | some r =>
      obtain ⟨replaced, matched⟩ := Filter.select_eq_some.1 held
      obtain ⟨member, rfl⟩ := Table.step_before stepped replaced
      exact mirrors.index.lookup_key (Table.mem_visible.2 ⟨member, matched⟩)
  | none =>
      refine mirrors.index.lookup_eq_none fun r visible same => ?_
      have matched := (Table.mem_visible.1 visible).2
      rw [clear r visible same, Filter.select_some, if_pos matched] at held
      cases held

/-- `lookup` on a row that has the key of the operation. -/
theorem Mirrors.lookup_keyed (mirrors : Mirrors d f n fp inst t) {op : RowOp}
    (clear : t.Clear f op) (keyed : d.withDefaults.primaryKey = rel.primaryKey)
    (stepped : t.step op = some t') {row : Row}
    (same : ∀ col ∈ rel.primaryKey, row.lookup col = op.target.lookup col) :
    inst.lookup (some row) = .ok (rel.keyText op.target, f.select op.before) := by
  simp only [Instance.lookup, mirrors.defn, keyed, pkKey_congr same,
    rel.pkKey_admitted (Table.step_target stepped), Except.map,
    mirrors.lookup_target clear stepped]

/-- Two complete rows: the first one hides the second. -/
theorem union_complete {r r' : Row} (ok : rel.admits r = true) (ok' : rel.admits r' = true) :
    r ∪ r' = r := by
  refine Finmap.ext_lookup fun col => ?_
  rw [KeyMap.lookup_union_eq]
  cases found : r.lookup col with
  | some v => rfl
  | none =>
      have absent : col ∉ r' := by
        rw [← Finmap.mem_keys, rel.complete r' ok', ← rel.complete r ok, Finmap.mem_keys]
        exact Finmap.lookup_eq_none.1 found
      rw [Finmap.lookup_eq_none.2 absent, Option.or_none]

theorem union_omitted {part before after : Row} (omits : OmitsUnchanged part before after)
    (ok : rel.admits before = true) (ok' : rel.admits after = true) : part ∪ before = after := by
  refine Finmap.ext_lookup fun col => ?_
  rw [KeyMap.lookup_union_eq]
  rcases omits col with same | ⟨absent, kept⟩
  · rw [same]
    cases found : after.lookup col with
    | some v => rfl
    | none =>
        have gone : col ∉ before := by
          rw [← Finmap.mem_keys, rel.complete before ok, ← rel.complete after ok',
            Finmap.mem_keys]
          exact Finmap.lookup_eq_none.1 found
        rw [Finmap.lookup_eq_none.2 gone, Option.or_none]
  · rw [absent, Option.none_or, kept]

/-- The three-way merge gives the new row back, cached before or not. -/
theorem patchRow_carried {before after : Row} {ch : Change}
    (carried : Carries rel (.update before after) ch) (ok : rel.admits before = true)
    (ok' : rel.admits after = true) {cached : Option Row}
    (held : cached = none ∨ cached = some before) :
    patchRow cached ch.old ch.new = after := by
  have self : before ∪ before = before := union_complete ok ok
  have whole : after ∪ before = after := union_complete ok' ok
  obtain ⟨-, ⟨neu, old⟩ | ⟨old, part, neu, omits⟩⟩ := carried
  · rcases held with rfl | rfl <;> rcases old with old | old <;>
      simp [patchRow, neu, old, self, whole]
  · have merged : part ∪ before = after := union_omitted omits ok ok'
    rcases held with rfl | rfl <;> simp [patchRow, neu, old, self, merged]

theorem project_insert (mirrors : Mirrors d f n fp inst t) {row : Row}
    (clear : t.Clear f (.insert row)) (keyed : d.withDefaults.primaryKey = rel.primaryKey)
    (stepped : t.step (.insert row) = some t') {ch : Change}
    (carried : Carries rel (.insert row) ch) :
    ∃ decision, inst.project ch = .ok decision ∧
      decidedCache inst.cache decision =
        inst.cache.set (rel.keyText row) (f.select (some row)) := by
  have ok : rel.admits row = true := Table.step_target stepped
  have absent := mirrors.lookup_target clear stepped
  simp only [RowOp.target, RowOp.before, Filter.select_none] at absent
  simp only [Instance.project, carried.1, carried.2, Instance.applyInsert, mirrors.filter,
    mirrors.defn, keyed, rel.pkKey_admitted ok, Except.map, Filter.select_some]
  split
  · exact ⟨_, rfl, rfl⟩
  · exact ⟨_, rfl, (KeyMap.set_none_of_absent absent).symm⟩

/-- An update that carries an operation finds the row before it. -/
theorem Mirrors.lookup_update (mirrors : Mirrors d f n fp inst t) {before after : Row}
    (clear : t.Clear f (.update before after))
    (keyed : d.withDefaults.primaryKey = rel.primaryKey)
    (stepped : t.step (.update before after) = some t') {ch : Change}
    (carried : Carries rel (.update before after) ch) :
    inst.lookup (firstNonNil ch.old ch.new) =
      .ok (rel.keyText before, f.select (some before)) := by
  have found {row : Row} (same : rel.keyOf row = rel.keyOf before) :
      inst.lookup (some row) = .ok (rel.keyText before, f.select (some before)) :=
    mirrors.lookup_keyed clear keyed stepped (List.map_inj_left.1 same)
  obtain ⟨-, ⟨neu, old | old⟩ | ⟨old, -⟩⟩ := carried
  · simp only [Table.step, Option.dite_none_right_eq_some] at stepped
    rw [firstNonNil, old, neu, Option.none_or]
    exact found stepped.1.2.2
  all_goals
    rw [firstNonNil, old, Option.some_or]
    exact found rfl

theorem project_update (mirrors : Mirrors d f n fp inst t) {before after : Row}
    (clear : t.Clear f (.update before after))
    (keyed : d.withDefaults.primaryKey = rel.primaryKey)
    (stepped : t.step (.update before after) = some t') {ch : Change}
    (carried : Carries rel (.update before after) ch) :
    ∃ decision, inst.project ch = .ok decision ∧
      decidedCache inst.cache decision =
        inst.cache.set (rel.keyText before) (f.select (some after)) := by
  have found := mirrors.lookup_update clear keyed stepped carried
  have cached := mirrors.lookup_target clear stepped
  simp only [RowOp.target, RowOp.before] at cached
  simp only [Table.step, Option.dite_none_right_eq_some] at stepped
  obtain ⟨⟨present, ok', -⟩, -⟩ := stepped
  have ok := t.admitted before present
  have held : f.select (some before) = none ∨ f.select (some before) = some before := by
    rw [Filter.select_some]
    split <;> simp
  have prior : inst.beforeRow (f.select (some before)) ch.old = f.select (some before) := by
    have split : inst.beforeRow (f.select (some before)) ch.old =
        (f.select (some before)).or (f.select ch.old) := by
      rw [Instance.beforeRow, mirrors.filter]
      rfl
    rw [split]
    obtain ⟨-, ⟨-, old | old⟩ | ⟨old, -⟩⟩ := carried <;> simp [old]
  simp only [Instance.project, carried.1, Instance.applyUpdate, found, Except.map, prior,
    mirrors.filter, patchRow_carried carried ok ok' held]
  cases matched : f.match (some before) <;> cases matched' : f.match (some after) <;>
    simp only [Filter.select_some, matched, matched', if_true, Bool.false_eq_true, if_false]
      at cached ⊢
  -- not in the shape before or after: nothing is cached to drop
  · exact ⟨_, rfl, (KeyMap.set_none_of_absent cached).symm⟩
  all_goals exact ⟨_, rfl, rfl⟩

theorem project_delete (mirrors : Mirrors d f n fp inst t) {before : Row}
    (clear : t.Clear f (.delete before)) (keyed : d.withDefaults.primaryKey = rel.primaryKey)
    (stepped : t.step (.delete before) = some t') {ch : Change}
    (carried : Carries rel (.delete before) ch) :
    ∃ decision, inst.project ch = .ok decision ∧
      decidedCache inst.cache decision = inst.cache.set (rel.keyText before) none := by
  obtain ⟨isDelete, old, carriesOld, shape⟩ := carried
  have same : ∀ col ∈ rel.primaryKey, old.lookup col = before.lookup col := by
    intro col member
    rcases shape with rfl | keyOnly
    · rfl
    · rw [keyOnly col, if_pos member]
  have cached := mirrors.lookup_target clear stepped
  simp only [RowOp.target, RowOp.before] at cached
  have found : inst.lookup (some old) = .ok (rel.keyText before, f.select (some before)) :=
    mirrors.lookup_keyed clear keyed stepped same
  simp only [Instance.project, isDelete, Instance.applyDelete, carriesOld, found, Except.map]
  cases matched : f.match (some before) with
  | true =>
      simp only [Filter.select_some, matched, if_true]
      exact ⟨_, rfl, rfl⟩
  | false =>
      -- a delete of a row that was never in the shape may still be announced
      simp only [Filter.select_some, matched, Bool.false_eq_true, if_false] at cached ⊢
      split
      · exact ⟨_, rfl, rfl⟩
      · exact ⟨_, rfl, (KeyMap.set_none_of_absent cached).symm⟩

theorem project_carried (mirrors : Mirrors d f n fp inst t) {op : RowOp}
    (clear : t.Clear f op) (keyed : d.withDefaults.primaryKey = rel.primaryKey)
    (stepped : t.step op = some t') {ch : Change} (carried : Carries rel op ch) :
    ∃ decision, inst.project ch = .ok decision ∧
      decidedCache inst.cache decision =
        inst.cache.set (rel.keyText op.target) (f.select op.after) := by
  cases op with
  | insert row => exact project_insert mirrors clear keyed stepped carried
  | update before after => exact project_update mirrors clear keyed stepped carried
  | delete before => exact project_delete mirrors clear keyed stepped carried

/-- Writing what an operation leaves moves the relation along the operation. -/
theorem Mirrors.index_step (mirrors : Mirrors d f n fp inst t) {op : RowOp}
    (clear : t.Clear f op) (stepped : t.step op = some t') :
    KeyMap.Indexes rel.keyText
      (inst.cache.set (rel.keyText op.target) (f.select op.after)) (t'.visible f) := by
  rw [Table.step_visible clear stepped]
  refine mirrors.index.set fun row left => Table.step_keyText stepped ?_
  exact (Filter.select_eq_some.1 left).1

theorem Mirrors.accepts (mirrors : Mirrors d f n fp inst t) :
    ∃ inst', inst.checkFingerprint fp = .ok inst' := by
  unfold Instance.checkFingerprint
  rcases mirrors.fingerprint with none | same
  · split_ifs <;> exact ⟨_, rfl⟩
  · simp only [same, ne_eq, not_true_eq_false, if_false]
    split_ifs <;> exact ⟨_, rfl⟩

theorem checkFingerprint_settles {inst inst' : Instance C} {fp : String}
    (known : inst.fingerprint = "" ∨ inst.fingerprint = fp)
    (accepted : inst.checkFingerprint fp = .ok inst') :
    inst'.fingerprint = "" ∨ inst'.fingerprint = fp := by
  unfold Instance.checkFingerprint at accepted
  split_ifs at accepted <;> cases accepted <;> simp_all

/-- A change of the table past the snapshot is projected: neither the gate nor the
fingerprint stops it. -/
theorem Mirrors.apply_eq (mirrors : Mirrors d f n fp inst t) {ch : Change}
    (mine : tableMatch d.withDefaults ch = true) (later : n < ch.commitLSN)
    (stamped : ch.relationFingerprint = fp) :
    ∃ fp', (fp' = "" ∨ fp' = fp) ∧ inst.apply ch =
      match inst.project ch with
      | .error err => ({ inst with fingerprint := fp' }, .error err)
      | .ok none => ({ inst with fingerprint := fp' }, .ok [])
      | .ok (some m) =>
          ({ inst with
              fingerprint := fp'
              cache := m.cache inst.cache
              log := inst.log.push m.op inst.defn.table m.row },
            .ok [⟨inst.log.next, m.op, inst.defn.table, m.row⟩]) := by
  have own : tableMatch inst.defn ch = true := mirrors.defn ▸ mine
  have passes : inst.skips ch = false := by
    simp [Instance.skips, mirrors.position, later]
  obtain ⟨inst', accepted⟩ := mirrors.accepts
  obtain ⟨fp', rfl⟩ := Instance.checkFingerprint_ok accepted
  refine ⟨fp', checkFingerprint_settles mirrors.fingerprint accepted, ?_⟩
  have same : ({ inst with fingerprint := fp' } : Instance C).project ch = inst.project ch := rfl
  have live : ({ inst with fingerprint := fp' } : Instance C).log.halted = none := mirrors.live
  simp only [Instance.apply, mirrors.live, own, passes, stamped, accepted, same, Bool.not_true,
    Bool.false_eq_true, if_false]
  cases inst.project ch with
  | error err => rfl
  | ok move =>
      cases move with
      | none => rfl
      | some m => exact Instance.record_live live m

/-- An accepted change does what `project` decides, and nothing else. -/
theorem Mirrors.apply_decided (mirrors : Mirrors d f n fp inst t) {ch : Change}
    (mine : tableMatch d.withDefaults ch = true) (later : n < ch.commitLSN)
    (stamped : ch.relationFingerprint = fp) {decision : Option Move}
    (decided : inst.project ch = .ok decision) :
    ∃ inst' evs, inst.apply ch = (inst', .ok evs) ∧
      evs = decision.toList.map (fun m => ⟨inst.log.next, m.op, inst.defn.table, m.row⟩) ∧
      inst'.log.events = inst.log.events ++ evs ∧
      inst'.cache = decidedCache inst.cache decision ∧
      ∀ t' : Table rel, KeyMap.Indexes rel.keyText inst'.cache (t'.visible f) →
        Mirrors d f n fp inst' t' := by
  obtain ⟨fp', settled, applied⟩ := mirrors.apply_eq mine later stamped
  rw [decided] at applied
  cases decision with
  | none =>
      exact ⟨_, _, applied, rfl, (List.append_nil _).symm, rfl, fun t' index =>
        ⟨mirrors.live, mirrors.defn, mirrors.filter, mirrors.loaded, mirrors.position, settled,
          index⟩⟩
  | some m =>
      exact ⟨_, _, applied, rfl, rfl, rfl, fun t' index =>
        ⟨mirrors.live, mirrors.defn, mirrors.filter, mirrors.loaded, mirrors.position, settled,
          index⟩⟩

/-- **One step of the simulation.** -/
theorem apply_carried (mirrors : Mirrors d f n fp inst t) {op : RowOp} (clear : t.Clear f op)
    (keyed : d.withDefaults.primaryKey = rel.primaryKey)
    (stepped : t.step op = some t') {ch : Change} (carried : Carries rel op ch)
    (mine : tableMatch d.withDefaults ch = true) (later : n < ch.commitLSN)
    (stamped : ch.relationFingerprint = fp) :
    ∃ inst' evs, inst.apply ch = (inst', .ok evs) ∧ Mirrors d f n fp inst' t' := by
  obtain ⟨decision, decided, written⟩ := project_carried mirrors clear keyed stepped carried
  obtain ⟨inst', evs, applied, -, -, cache, settle⟩ :=
    mirrors.apply_decided mine later stamped decided
  refine ⟨inst', evs, applied, settle t' ?_⟩
  rw [cache, written]
  exact mirrors.index_step clear stepped

/-! ## Runs -/

/-- `Apply` on each change in turn, stopping at the first error. -/
def Instance.replay (inst : Instance C) : List Change → Except ShapeError (Instance C)
  | [] => .ok inst
  | ch :: changes =>
      match inst.apply ch with
      | (_, .error err) => .error err
      | (inst, .ok _) => inst.replay changes

theorem Instance.replay_append {inst inst' : Instance C} {first : List Change}
    (done : inst.replay first = .ok inst') (second : List Change) :
    inst.replay (first ++ second) = inst'.replay second := by
  induction first generalizing inst with
  | nil => cases done; rfl
  | cons ch first ih =>
      simp only [List.cons_append, replay] at done ⊢
      split at done
      · cases done
      · exact ih done

/-- The LSN gate: what the snapshot already holds changes nothing. -/
theorem replay_skipped (mirrors : Mirrors d f n fp inst t) {changes : List Change}
    (old : ∀ ch ∈ changes, ch.commitLSN ≠ 0 ∧ ch.commitLSN ≤ n) :
    inst.replay changes = .ok inst := by
  induction changes with
  | nil => rfl
  | cons ch changes ih =>
      obtain ⟨nonzero, held⟩ := old ch List.mem_cons_self
      have gated : inst.skips ch = true := by
        simp [Instance.skips, mirrors.loaded, mirrors.position, nonzero, held]
      have ignored : inst.apply ch = (inst, .ok []) := by
        simp [Instance.apply, mirrors.live, gated]
      simp only [Instance.replay, ignored]
      exact ih fun c member => old c (List.mem_cons_of_mem _ member)

theorem replay_carried (distinct : rel.DistinctKeys)
    (keyed : d.withDefaults.primaryKey = rel.primaryKey) (ops : List (RowOp × Change))
    (mirrors : Mirrors d f n fp inst t)
    (carried : ∀ p ∈ ops, n < p.2.commitLSN ∧ p.2.relationFingerprint = fp ∧
      tableMatch d.withDefaults p.2 = true ∧ Carries rel p.1 p.2)
    (ran : rel.machine.run t (ops.map Prod.fst) = some t') :
    ∃ inst', inst.replay (ops.map Prod.snd) = .ok inst' ∧ Mirrors d f n fp inst' t' := by
  induction ops generalizing inst t with
  | nil =>
      cases ran
      exact ⟨inst, rfl, mirrors⟩
  | cons p ops ih =>
      obtain ⟨mid, stepped, rest⟩ := Machine.run_cons.1 ran
      obtain ⟨later, stamped, mine, carries⟩ := carried p List.mem_cons_self
      obtain ⟨inst', evs, applied, mirrors'⟩ :=
        apply_carried mirrors (Table.clear_of_distinct distinct stepped f) keyed stepped carries
          mine later stamped
      obtain ⟨inst'', replayed, final⟩ :=
        ih mirrors' (fun q member => carried q (List.mem_cons_of_mem _ member)) rest
      refine ⟨inst'', ?_, final⟩
      simp only [List.map_cons, Instance.replay, applied, replayed]

/-- `LoadSnapshot` is a run of inserts. -/
theorem loadRows_inserts (keyed : d.withDefaults.primaryKey = rel.primaryKey) (rows : List Row)
    (mirrors : Mirrors d f n fp inst t)
    (clear : rel.machine.Meets (fun t op => t.Clear f op) t (rows.map .insert))
    (ran : rel.machine.run t (rows.map .insert) = some t') :
    ∃ inst', inst.loadRows (rows.map some) = (inst', .ok ()) ∧ Mirrors d f n fp inst' t' := by
  induction rows generalizing inst t with
  | nil =>
      cases ran
      exact ⟨inst, rfl, mirrors⟩
  | cons row rows ih =>
      obtain ⟨mid, stepped, rest⟩ := Machine.run_cons.1 ran
      obtain ⟨here, later⟩ := clear mid stepped
      have inserted : t.step (.insert row) = some mid := stepped
      have index := mirrors.index_step here inserted
      have ok : rel.admits row = true := Table.step_target inserted
      simp only [RowOp.target, RowOp.after, Filter.select_some] at index
      simp only [List.map_cons, Instance.loadRows, mirrors.filter, mirrors.defn, keyed,
        rel.pkKey_admitted ok]
      split
      · rename_i matched
        rw [Instance.record_live mirrors.live]
        rw [if_pos matched] at index
        exact ih ⟨mirrors.live, mirrors.defn, mirrors.filter, mirrors.loaded, mirrors.position,
          mirrors.fingerprint, index⟩ later rest
      · rename_i unmatched
        have absent := mirrors.lookup_target here inserted
        simp only [RowOp.target, RowOp.before, Filter.select_none] at absent
        rw [if_neg unmatched, KeyMap.set_none_of_absent absent] at index
        exact ih ⟨mirrors.live, mirrors.defn, mirrors.filter, mirrors.loaded, mirrors.position,
          mirrors.fingerprint, index⟩ later rest

/-- Matching rows of one table can be inserted into an empty one in any order. -/
theorem Table.run_inserts {whole : Table rel} (apart : whole.Apart f) (rows : List Row)
    (nodup : rows.Nodup) (within : ∀ r ∈ rows, r ∈ whole.visible f)
    (sub : t.rows ⊆ whole.visible f) (absent : ∀ r ∈ rows, r ∉ t.rows) :
    ∃ t', rel.machine.run t (rows.map .insert) = some t' ∧
      rel.machine.Meets (fun t op => t.Clear f op) t (rows.map .insert) ∧
      ∀ r, r ∈ t'.rows ↔ r ∈ t.rows ∨ r ∈ rows := by
  induction rows generalizing t with
  | nil => exact ⟨t, rfl, trivial, by simp⟩
  | cons row rows ih =>
      have here := within row List.mem_cons_self
      have ok := whole.admitted row (mem_visible.1 here).1
      have fresh : ∀ r ∈ t.rows, rel.keyText r ≠ rel.keyText row := by
        intro r member same
        rw [apart r (sub member) row here same] at member
        exact absent row List.mem_cons_self member
      have fresh' : ∀ r ∈ t.rows, rel.keyOf r ≠ rel.keyOf row :=
        fun r member same => fresh r member (rel.keyText_congr same)
      have clear : t.Clear f (.insert row) := fun r visible same =>
        absurd same (fresh r (mem_visible.1 visible).1)
      have stepped : rel.machine.step t (.insert row) = some (t.insert row ok fresh') :=
        dif_pos ⟨ok, fresh'⟩
      obtain ⟨notMem, nodup'⟩ := List.nodup_cons.1 nodup
      have sub' : (t.insert row ok fresh').rows ⊆ whole.visible f :=
        Finset.insert_subset here sub
      have absent' : ∀ r ∈ rows, r ∉ (t.insert row ok fresh').rows := by
        intro r member
        simp only [Table.insert, Finset.mem_insert, not_or]
        exact ⟨fun same => notMem (same ▸ member), absent r (List.mem_cons_of_mem _ member)⟩
      obtain ⟨t', ran, meets, rowsEq⟩ :=
        ih nodup' (fun r member => within r (List.mem_cons_of_mem _ member)) sub' absent'
      have ran' : rel.machine.run t ((row :: rows).map .insert) = some t' :=
        Machine.run_cons.2 ⟨_, stepped, ran⟩
      refine ⟨t', ran', fun mid stepped' => ?_, fun r => ?_⟩
      · cases stepped.symm.trans stepped'
        exact ⟨clear, meets⟩
      · rw [rowsEq r]
        simp only [Table.insert, Finset.mem_insert, List.mem_cons]
        tauto

theorem mirrors_start (d : Definition C) (f : Filter) (n : LSN) (fp : String) :
    Mirrors d f n fp { Instance.start d f with snapshotLSN := n, hasSnapshot := true }
      (⟨∅, by simp, by simp⟩ : Table rel) :=
  ⟨rfl, rfl, rfl, rfl, rfl, Or.inl rfl, KeyMap.indexes_empty⟩

theorem loadSnapshot_mirrors (keyed : d.withDefaults.primaryKey = rel.primaryKey) (fp : String)
    {mid : Table rel} (apart : mid.Apart f) {rows : List Row}
    (snapshot : (rows : Multiset Row) = (mid.visible f).val) :
    ∃ inst, (Instance.start d f).loadSnapshot n (rows.map some) = (inst, .ok ()) ∧
      Mirrors d f n fp inst mid := by
  have member : ∀ r, r ∈ rows ↔ r ∈ mid.visible f := by
    intro r
    rw [← Finset.mem_val, ← snapshot, Multiset.mem_coe]
  have nodup : rows.Nodup := by
    rw [← Multiset.coe_nodup, snapshot]
    exact (mid.visible f).nodup
  obtain ⟨t', ran, clear, rowsEq⟩ := Table.run_inserts (t := ⟨∅, by simp, by simp⟩) apart rows
    nodup (fun r here => (member r).1 here) (Finset.empty_subset _)
    (fun r _ => Finset.notMem_empty r)
  obtain ⟨inst, loaded, mirrors⟩ :=
    loadRows_inserts keyed rows (mirrors_start d f n fp) clear ran
  have same : t'.visible f = mid.visible f := by
    ext r
    rw [Table.mem_visible, rowsEq, member, Table.mem_visible]
    simp only [Finset.notMem_empty, false_or]
    tauto
  exact ⟨inst, loaded, mirrors.live, mirrors.defn, mirrors.filter, mirrors.loaded,
    mirrors.position, mirrors.fingerprint, same ▸ mirrors.index⟩

/-- Positions increase, so the commits up to `n` come first. -/
theorem commits_split {commits : List Commit}
    (increasing : commits.Pairwise fun a b => a.lsn < b.lsn) (n : LSN) :
    (commits.filter fun c => c.lsn ≤ n) ++ (commits.filter fun c => n < c.lsn) = commits := by
  induction commits with
  | nil => rfl
  | cons c commits ih =>
      obtain ⟨above, rest⟩ := List.pairwise_cons.1 increasing
      by_cases old : c.lsn ≤ n
      · simp [old, Nat.not_lt.2 old, ih rest]
      · have later : n < c.lsn := Nat.lt_of_not_le old
        have all : ∀ b ∈ commits, n < b.lsn := fun b member => later.trans (above b member)
        have nothing : commits.filter (fun b => b.lsn ≤ n) = [] :=
          List.filter_eq_nil_iff.2 fun b member => by simp [all b member]
        have whole : commits.filter (fun b => n < b.lsn) = commits :=
          List.filter_eq_self.2 fun b member => by simp [all b member]
        simp [old, later, nothing, whole]

/-- **The cache refines the table.**  Load the matching rows of the table at `n`,
then apply the whole history, the commits up to `n` included: no call fails, and
what the shape materializes is the matching rows of the final table, each once. -/
theorem replay_refines (h : History rel d) (f : Filter) (n : LSN)
    (distinct : rel.DistinctKeys) {mid : Table rel} (held : h.stateAt n = some mid)
    {rows : List Row} (snapshot : (rows : Multiset Row) = (mid.visible f).val) :
    ∃ loaded inst, (Instance.start d f).loadSnapshot n (rows.map some) = (loaded, .ok ()) ∧
      loaded.replay h.changes = .ok inst ∧
      inst.materialized = (h.final.visible f).val := by
  obtain ⟨loaded, seeded, mirrors⟩ :=
    loadSnapshot_mirrors h.keyed h.fingerprint (Table.apart_of_distinct distinct mid f) (n := n)
      snapshot
  set early := h.commits.filter fun c => c.lsn ≤ n with early_eq
  set late := h.commits.filter fun c => n < c.lsn with late_eq
  have split : early ++ late = h.commits := commits_split h.increasing n
  have skipped : loaded.replay (early.flatMap fun c => c.changes.map Prod.snd) = .ok loaded := by
    refine replay_skipped mirrors fun ch member => ?_
    obtain ⟨c, inEarly, inCommit⟩ := List.mem_flatMap.1 member
    obtain ⟨p, inChanges, rfl⟩ := List.mem_map.1 inCommit
    obtain ⟨here, old⟩ := List.mem_filter.1 inEarly
    rw [(h.stamped c here p inChanges).1]
    exact ⟨h.nonzero c here, of_decide_eq_true old⟩
  have ran : rel.machine.run mid ((late.flatMap Commit.changes).map Prod.fst) = some h.final := by
    have runs := h.runs
    rw [← split, List.flatMap_append, Machine.run_append, ← History.stateAt, held] at runs
    rw [List.map_flatMap]
    exact runs
  obtain ⟨inst, replayed, final⟩ :=
    replay_carried distinct h.keyed (late.flatMap Commit.changes) mirrors
      (by
        intro p member
        obtain ⟨c, inLate, inChanges⟩ := List.mem_flatMap.1 member
        obtain ⟨here, later⟩ := List.mem_filter.1 inLate
        obtain ⟨lsn, stamped⟩ := h.stamped c here p inChanges
        exact ⟨lsn ▸ of_decide_eq_true later, stamped⟩) ran
  refine ⟨loaded, inst, seeded, ?_, final.index.values_eq⟩
  rw [History.changes, ← split, List.flatMap_append, Instance.replay_append skipped,
    ← List.map_flatMap]
  exact replayed

/-! A history that inserts an open task, closes it with a partial update and inserts
another one, loaded after its first commit. -/

namespace TaskHistory

def task (id : Int64) (status : String) : Row :=
  KeyMap.ofList [("id", .int64 id), ("status", .string status)]

def tasks : Relation where
  columns := {"id", "status"}
  primaryKey := ["id"]
  admits row := row ∈ [task 1 "open", task 1 "done", task 2 "open"]
  complete row member := by
    have each : ∀ r ∈ [task 1 "open", task 1 "done", task 2 "open"],
        r.keys = {"id", "status"} := by decide
    exact each row (of_decide_eq_true member)
  key_columns := by decide
  key_nonempty := by decide

theorem distinct : tasks.DistinctKeys := by
  intro r r' member member'
  have each : ∀ r ∈ [task 1 "open", task 1 "done", task 2 "open"],
      ∀ r' ∈ [task 1 "open", task 1 "done", task 2 "open"],
        tasks.keyText r = tasks.keyText r' → tasks.keyOf r = tasks.keyOf r' := by decide
  exact each r (of_decide_eq_true member) r' (of_decide_eq_true member')

def openTasks : Definition Unit :=
  { name := "tasks", schema := "", table := "", primaryKey := [], bind := none }

def change (op : Op) (lsn : LSN) (old new : Option Row) : Change :=
  { schema := "public", table := "tasks", op := op, relationFingerprint := "v1",
    commitLSN := lsn, old := old, new := new }

def commits : List Commit :=
  [⟨10, [(.insert (task 1 "open"), change .insert 10 none (task 1 "open"))]⟩,
    ⟨20, [(.update (task 1 "open") (task 1 "done"),
      change .update 20 (task 1 "open") (some (KeyMap.ofList [("status", .string "done")])))]⟩,
    ⟨30, [(.insert (task 2 "open"), change .insert 30 none (task 2 "open"))]⟩]

theorem closes_omits : OmitsUnchanged (KeyMap.ofList [("status", .string "done")])
    (task 1 "open") (task 1 "done") := by
  intro col
  by_cases changed : col = "status"
  · subst changed
    exact Or.inl (by decide)
  · refine Or.inr ⟨?_, ?_⟩ <;>
      simp [task, KeyMap.lookup_ofList_cons, KeyMap.lookup_ofList_nil, changed]

def history : History tasks openTasks where
  initial := ⟨∅, by simp, by simp⟩
  commits := commits
  final := (tasks.machine.run ⟨∅, by simp, by simp⟩
    (commits.flatMap fun c => c.changes.map Prod.fst)).get (by decide)
  fingerprint := "v1"
  keyed := by decide
  increasing := by decide
  nonzero := by decide
  stamped := by
    intro c member p inCommit
    simp only [commits, List.mem_cons, List.not_mem_nil, or_false] at member
    rcases member with rfl | rfl | rfl <;>
      simp only [List.mem_singleton] at inCommit <;> subst inCommit
    · exact ⟨rfl, rfl, by decide, rfl, rfl⟩
    · exact ⟨rfl, rfl, by decide, rfl, Or.inr ⟨rfl, _, rfl, closes_omits⟩⟩
    · exact ⟨rfl, rfl, by decide, rfl, rfl⟩
  runs := by simp

def openFilter : Filter := ⟨[{ column := "status", op := .eq, value := .string "open" }]⟩

theorem replay_refines_history :
    ∃ loaded inst, (Instance.start openTasks openFilter).loadSnapshot 10 [some (task 1 "open")] =
        (loaded, .ok ()) ∧
      loaded.replay history.changes = .ok inst ∧
      inst.materialized = (history.final.visible openFilter).val ∧
      history.final.visible openFilter = {task 2 "open"} := by
  have held : history.stateAt 10 = some ((history.stateAt 10).get (by decide)) :=
    (Option.some_get _).symm
  have snapshot : (([task 1 "open"] : List Row) : Multiset Row) =
      (((history.stateAt 10).get (by decide)).visible openFilter).val := by decide
  obtain ⟨loaded, inst, seeded, replayed, final⟩ :=
    replay_refines history openFilter 10 distinct held snapshot
  exact ⟨loaded, inst, seeded, replayed, final, by decide⟩

end TaskHistory

end Tether.Shape
