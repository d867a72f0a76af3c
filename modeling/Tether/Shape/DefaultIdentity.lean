/-
# Tether.Shape.DefaultIdentity — what a shape makes of REPLICA IDENTITY DEFAULT

Under the default replica identity an update that keeps the key comes without its
old row, and its new row omits TOASTed columns that did not change; a delete comes
with the key and NULL everywhere else.  `Ships` is that contract, `feed` drives a
table and a shape of it through shipped changes.

`project_shipped` says once what the shape decides on a shipped change
(`announced`), and `feed_step` what one step then does to the cache and the log.  The
law read off them here is that the cache holds the matching rows, complete and
current.  An omitted column can only be filled in from a cached row, and a row can only be
found by its cache key; so the law holds exactly as long as no update omits columns of a row
outside the shape that matter (`Shipment.Fits`) and no change meets a row with another
primary key under its cache key (`Shipment.Clear`).
-/
import Tether.Shape.ParseWhere
import Tether.Shape.Refinement
import Tether.Shape.RowIdentity

namespace Tether.Shape

open Tether.Lib Tether.Wal

set_option autoImplicit false

/-- What pgoutput sends for a row operation under REPLICA IDENTITY DEFAULT. -/
def Ships (rel : Relation) : RowOp → Change → Prop
  | .insert row, ch => ch.op = .insert ∧ ch.new = some row
  | .update before after, ch =>
      ch.op = .update ∧ ch.old = none ∧
        ∃ part, ch.new = some part ∧ OmitsUnchanged part before after
  | .delete before, ch => ch.op = .delete ∧ ∃ old, ch.old = some old ∧ KeyOnly rel before old

/-- A row operation after the snapshot at `n`, with the change sent for it. -/
structure Shipment {C : Type} (rel : Relation) (d : Definition C) (n : LSN) (fp : String) where
  op : RowOp
  change : Change
  ships : Ships rel op change
  mine : tableMatch d.withDefaults change = true
  later : n < change.commitLSN
  stamped : change.relationFingerprint = fp

/-- A table, a shape of it, and what the last `Apply` returned. -/
structure View (rel : Relation) (C : Type) where
  table : Table rel
  inst : Instance C
  emitted : List Event := []

variable {C : Type} {rel : Relation} {d : Definition C} {f : Filter} {n : LSN} {fp : String}

/-- The events `Apply` returns for the change; none with an error. -/
def View.answer (v : View rel C) (ch : Change) : List Event :=
  (v.inst.apply ch).2.toOption.getD []

/-- The shape is loaded with the matching rows of the table, then fed change by change. -/
def feed (rel : Relation) (d : Definition C) (f : Filter) (n : LSN) (fp : String) :
    Machine (View rel C) (Shipment rel d n fp) where
  init v := v.emitted = [] ∧ ∃ rows : List Row, (rows : Multiset Row) = (v.table.visible f).val ∧
    (Instance.start d f).loadSnapshot n (rows.map some) = (v.inst, .ok ())
  step v s := (v.table.step s.op).map fun t =>
    { table := t
      inst := (v.inst.apply s.change).1
      emitted := v.answer s.change }

/-! ## What the shape decides -/

/-- The row has its key columns. -/
def Relation.HasKey (rel : Relation) (row : Option Row) : Prop :=
  ∀ col ∈ rel.primaryKey, col ∈ row.getD ∅

instance (row : Option Row) : Decidable (rel.HasKey row) :=
  inferInstanceAs (Decidable (∀ col ∈ rel.primaryKey, col ∈ row.getD ∅))

/-- The move for a shipped change of the row with cache key `key`. -/
def announced (f : Filter) (key : String) : RowOp → Change → Option Move
  | .insert row, _ => (f.select (some row)).map (⟨.insert, key, ·⟩)
  | .update before after, ch =>
      if f.match (some before) then
        some (if f.match (some after) then ⟨.update, key, after⟩ else ⟨.delete, key, before⟩)
      else (f.select ch.new).map (⟨.insert, key, ·⟩)
  | .delete before, ch => ((f.select (some before)).or (f.select ch.old)).map (⟨.delete, key, ·⟩)

/-- Only an update can come without its key. -/
def Keyless (rel : Relation) : RowOp → Change → Prop
  | .update _ _, ch => ¬ rel.HasKey ch.new
  | _, _ => False

instance (op : RowOp) (ch : Change) : Decidable (Keyless rel op ch) := by
  cases op <;> unfold Keyless <;> infer_instance

section Decisions

variable {inst : Instance C} {t t' : Table rel} {ch : Change}

theorem project_shipped_insert (mirrors : Mirrors d f n fp inst t)
    (keyed : d.withDefaults.primaryKey = rel.primaryKey) {row : Row}
    (stepped : t.step (.insert row) = some t') (ships : Ships rel (.insert row) ch) :
    inst.project ch = .ok (announced f (rel.keyText row) (.insert row) ch) := by
  simp only [Table.step, Option.dite_none_right_eq_some] at stepped
  obtain ⟨⟨ok, -⟩, -⟩ := stepped
  simp only [Instance.project, ships.1, ships.2, Instance.applyInsert, mirrors.filter,
    mirrors.defn, keyed, rel.pkKey_admitted ok, Except.map, announced, Filter.select_some]
  split <;> rfl

theorem KeyOnly.key {before old : Row} (keyOnly : KeyOnly rel before old) :
    ∀ col ∈ rel.primaryKey, old.lookup col = before.lookup col := by
  intro col member
  rw [keyOnly col, if_pos member]

/-- The key columns of a new row that has them are those of the row before. -/
theorem key_of_part {before after part : Row} (omits : OmitsUnchanged part before after)
    (same : rel.keyOf after = rel.keyOf before) (carried : rel.HasKey (some part)) :
    ∀ col ∈ rel.primaryKey, part.lookup col = before.lookup col := by
  intro col member
  rcases omits col with whole | ⟨absent, -⟩
  · exact whole.trans (List.map_inj_left.1 same col member)
  · exact absurd (carried col member) (Finmap.lookup_eq_none.1 absent)

theorem project_shipped_update (mirrors : Mirrors d f n fp inst t) {before after : Row}
    (clear : t.Clear f (.update before after))
    (keyed : d.withDefaults.primaryKey = rel.primaryKey)
    (stepped : t.step (.update before after) = some t')
    (ships : Ships rel (.update before after) ch) (carried : rel.HasKey ch.new) :
    inst.project ch = .ok (announced f (rel.keyText before) (.update before after) ch) := by
  obtain ⟨isUpdate, noOld, part, isNew, omits⟩ := ships
  rw [isNew] at carried
  have found : inst.lookup (some part) = .ok (rel.keyText before, f.select (some before)) :=
    mirrors.lookup_keyed clear keyed stepped
      (key_of_part omits (Table.step_keyOf stepped rfl) carried)
  simp only [Table.step, Option.dite_none_right_eq_some] at stepped
  obtain ⟨⟨present, ok', -⟩, -⟩ := stepped
  simp only [Instance.project, isUpdate, Instance.applyUpdate, noOld, isNew, firstNonNil,
    Option.none_or, found, Except.map, mirrors.filter, announced, Instance.beforeRow]
  cases matched : f.match (some before) with
  | true =>
      have merged : part ∪ before = after := union_omitted omits (t.admitted before present) ok'
      simp only [Filter.select_some, matched, if_true, patchRow, Option.getD_some,
        Option.getD_none, Finmap.union_empty, merged]
      cases f.match (some after) <;> rfl
  | false =>
      simp only [Filter.select_some, matched, Bool.false_eq_true, if_false, patchRow,
        Option.getD_some, Option.getD_none, Finmap.union_empty]
      cases f.match (some part) <;> rfl

/-- An update without its key columns is an error. -/
theorem project_keyless (mirrors : Mirrors d f n fp inst t)
    (keyed : d.withDefaults.primaryKey = rel.primaryKey) {op : RowOp} (ships : Ships rel op ch)
    (keyless : Keyless rel op ch) : ∃ err, inst.project ch = .error err := by
  cases op with
  | update before after =>
      obtain ⟨isUpdate, noOld, part, isNew, -⟩ := ships
      simp only [Keyless, Relation.HasKey, isNew, Option.getD_some] at keyless
      have missing : ∃ err, pkKey rel.primaryKey part = .error err := by
        cases own : pkKey rel.primaryKey part with
        | error err => exact ⟨err, rfl⟩
        | ok key => exact absurd (present_of_pkKey own) keyless
      obtain ⟨err, missing⟩ := missing
      refine ⟨err, ?_⟩
      simp [Instance.project, isUpdate, Instance.applyUpdate, firstNonNil, noOld, isNew,
        Instance.lookup, mirrors.defn, keyed, missing, Except.map]
  | insert _ => exact keyless.elim
  | delete _ => exact keyless.elim

theorem project_shipped_delete (mirrors : Mirrors d f n fp inst t) {before : Row}
    (clear : t.Clear f (.delete before)) (keyed : d.withDefaults.primaryKey = rel.primaryKey)
    (stepped : t.step (.delete before) = some t') (ships : Ships rel (.delete before) ch) :
    inst.project ch = .ok (announced f (rel.keyText before) (.delete before) ch) := by
  obtain ⟨isDelete, old, isOld, keyOnly⟩ := ships
  have found : inst.lookup (some old) = .ok (rel.keyText before, f.select (some before)) :=
    mirrors.lookup_keyed clear keyed stepped keyOnly.key
  simp only [Instance.project, isDelete, Instance.applyDelete, isOld, found, Except.map,
    announced, Filter.select_some, mirrors.filter]
  cases f.match (some before) with
  | true => rfl
  | false =>
      simp only [Bool.false_eq_true, if_false, Option.none_or]
      split <;> rfl

/-- **What the shape decides on a shipped change.** -/
theorem project_shipped (mirrors : Mirrors d f n fp inst t) {op : RowOp} (clear : t.Clear f op)
    (keyed : d.withDefaults.primaryKey = rel.primaryKey)
    (stepped : t.step op = some t') (ships : Ships rel op ch) (carried : ¬ Keyless rel op ch) :
    inst.project ch = .ok (announced f (rel.keyText op.target) op ch) := by
  cases op with
  | insert row => exact project_shipped_insert mirrors keyed stepped ships
  | update before after =>
      exact project_shipped_update mirrors clear keyed stepped ships (not_not.1 carried)
  | delete before => exact project_shipped_delete mirrors clear keyed stepped ships

end Decisions

/-! ## One shipped change -/

/-- What the cache holds under the row's key afterwards.  Columns that an update omits
come from the cached row, so only a row in the shape gets them back. -/
def leaves (rel : Relation) (f : Filter) : RowOp → Change → Option Row
  | .insert row, _ => f.select (some row)
  | .update before after, ch =>
      if rel.HasKey ch.new then
        if f.match (some before) then f.select (some after) else f.select ch.new
      else f.select (some before)
  | .delete _, _ => none

/-- The moves of a shipped change; an update without its key makes none. -/
def said (rel : Relation) (f : Filter) (op : RowOp) (ch : Change) : List Move :=
  if Keyless rel op ch then [] else (announced f (rel.keyText op.target) op ch).toList

/-- The change reaches the cache: an insert by its row, any other change by its key. -/
def Touches (rel : Relation) (f : Filter) : RowOp → Change → Prop
  | .insert row, _ => f.match (some row) = true
  | op, ch => ¬ Keyless rel op ch

instance (op : RowOp) (ch : Change) : Decidable (Touches rel f op ch) := by
  cases op <;> unfold Touches <;> infer_instance

/-- A change that reaches the cache finds no row with another primary key under its cache
key. -/
def Shipment.Clear (f : Filter) (t : Table rel) (s : Shipment rel d n fp) : Prop :=
  Touches rel f s.op s.change → t.Clear f s.op

instance (t : Table rel) (s : Shipment rel d n fp) : Decidable (s.Clear f t) :=
  inferInstanceAs (Decidable (_ → _))

/-- What one step of `feed` does. -/
structure Fed (d : Definition C) (f : Filter) (n : LSN) (fp : String) (v v' : View rel C)
    (op : RowOp) (ch : Change) : Prop where
  table : v.table.step op = some v'.table
  cache : Touches rel f op ch →
    v'.inst.cache = v.inst.cache.set (rel.keyText op.target) (leaves rel f op ch)
  still : ¬ Touches rel f op ch → v'.inst.cache = v.inst.cache
  emitted : v'.emitted =
    (said rel f op ch).map fun m => ⟨v.inst.log.next, m.op, v.inst.defn.table, m.row⟩
  log : v'.inst.log.events = v.inst.log.events ++ v'.emitted
  mirrors : ∀ t : Table rel, KeyMap.Indexes rel.keyText v'.inst.cache (t.visible f) →
    Mirrors d f n fp v'.inst t

section Steps

variable {inst : Instance C} {t t' : Table rel} {op : RowOp} {ch : Change} {v v' : View rel C}
  {s : Shipment rel d n fp}

theorem decidedCache_announced (mirrors : Mirrors d f n fp inst t) (clear : t.Clear f op)
    (stepped : t.step op = some t') (carried : ¬ Keyless rel op ch) :
    decidedCache inst.cache (announced f (rel.keyText op.target) op ch) =
      inst.cache.set (rel.keyText op.target) (leaves rel f op ch) := by
  have held := mirrors.lookup_target clear stepped
  cases op with
  | insert row =>
      simp only [announced, leaves, Filter.select_some]
      split
      · rfl
      · exact (KeyMap.set_none_of_absent held).symm
  | update before after =>
      have keyed : rel.HasKey ch.new := not_not.1 carried
      simp only [announced, leaves, keyed, if_true]
      cases matched : f.match (some before) with
      | true =>
          simp only [if_true, Filter.select_some]
          split <;> rfl
      | false =>
          simp only [RowOp.before, Filter.select_some, matched, Bool.false_eq_true, if_false]
            at held ⊢
          cases f.select ch.new with
          | some part => rfl
          | none => exact (KeyMap.set_none_of_absent held).symm
  | delete before =>
      simp only [announced, leaves]
      cases gone : (f.select (some before)).or (f.select ch.old) with
      | some row => rfl
      | none =>
          rw [RowOp.before, (Option.or_eq_none_iff.1 gone).1] at held
          exact (KeyMap.set_none_of_absent held).symm

theorem not_keyless_of_touches (touches : Touches rel f op ch) : ¬ Keyless rel op ch := by
  cases op with
  | insert row => exact id
  | update _ _ | delete _ => exact touches

theorem said_of_touches (touches : Touches rel f op ch) :
    said rel f op ch = (announced f (rel.keyText op.target) op ch).toList :=
  if_neg (not_keyless_of_touches touches)

/-- A change that does not reach the cache is not announced. -/
theorem said_of_still (still : ¬ Touches rel f op ch) : said rel f op ch = [] := by
  cases op with
  | insert row =>
      have unmatched : f.match (some row) = false := Bool.eq_false_of_not_eq_true still
      simp [said, Keyless, announced, Filter.select_some, unmatched]
  | update _ _ | delete _ => exact if_pos (not_not.1 still)

theorem project_still (mirrors : Mirrors d f n fp inst t)
    (keyed : d.withDefaults.primaryKey = rel.primaryKey) (stepped : t.step op = some t')
    (ships : Ships rel op ch) (still : ¬ Touches rel f op ch) :
    inst.project ch = .ok none ∨ ∃ err, inst.project ch = .error err := by
  cases op with
  | insert row =>
      have unmatched : f.match (some row) = false := Bool.eq_false_of_not_eq_true still
      left
      rw [project_shipped_insert mirrors keyed stepped ships, announced, Filter.select_some,
        if_neg (by simp [unmatched])]
      rfl
  | update _ _ | delete _ => exact .inr (project_keyless mirrors keyed ships (not_not.1 still))

theorem feed_touched (mirrors : Mirrors d f n fp v.inst v.table) (clear : v.table.Clear f s.op)
    (keyed : d.withDefaults.primaryKey = rel.primaryKey)
    (touches : Touches rel f s.op s.change) (fed : (feed rel d f n fp).step v s = some v') :
    Fed d f n fp v v' s.op s.change := by
  obtain ⟨t', stepped, rfl⟩ := Option.map_eq_some_iff.1 fed
  have carried := not_keyless_of_touches touches
  have decided := project_shipped mirrors clear keyed stepped s.ships carried
  obtain ⟨inst', evs, applied, events, log, cache, settle⟩ :=
    mirrors.apply_decided s.mine s.later s.stamped decided
  have answered : v.answer s.change = evs := by
    rw [View.answer, applied]
    rfl
  rw [answered, applied]
  refine ⟨stepped, fun _ => ?_, fun still => absurd touches still, ?_, log, settle⟩
  · exact cache.trans (decidedCache_announced mirrors clear stepped carried)
  · rw [said_of_touches touches]
    exact events

theorem feed_still (mirrors : Mirrors d f n fp v.inst v.table)
    (keyed : d.withDefaults.primaryKey = rel.primaryKey)
    (still : ¬ Touches rel f s.op s.change) (fed : (feed rel d f n fp).step v s = some v') :
    Fed d f n fp v v' s.op s.change := by
  obtain ⟨t', stepped, rfl⟩ := Option.map_eq_some_iff.1 fed
  obtain ⟨fp', settled, applied⟩ := mirrors.apply_eq s.mine s.later s.stamped
  have unchanged : (v.inst.apply s.change).1 = { v.inst with fingerprint := fp' } ∧
      v.answer s.change = [] := by
    rw [View.answer]
    rcases project_still mirrors keyed stepped s.ships still with none | ⟨err, failed⟩
    · rw [applied, none]
      exact ⟨rfl, rfl⟩
    · rw [applied, failed]
      exact ⟨rfl, rfl⟩
  rw [unchanged.1, unchanged.2]
  refine ⟨stepped, fun touches => absurd touches still, fun _ => rfl, ?_,
    (List.append_nil _).symm, fun t index => ?_⟩
  · rw [said_of_still still]
    rfl
  · exact ⟨mirrors.live, mirrors.defn, mirrors.filter, mirrors.loaded, mirrors.position, settled,
      index⟩

/-- **What one step of `feed` does.** -/
theorem feed_step (mirrors : Mirrors d f n fp v.inst v.table) (clear : s.Clear f v.table)
    (keyed : d.withDefaults.primaryKey = rel.primaryKey)
    (fed : (feed rel d f n fp).step v s = some v') : Fed d f n fp v v' s.op s.change := by
  by_cases touches : Touches rel f s.op s.change
  · exact feed_touched mirrors (clear touches) keyed touches fed
  · exact feed_still mirrors keyed touches fed

theorem feed_emitted (fed : (feed rel d f n fp).step v s = some v') :
    v'.emitted = v.answer s.change := by
  obtain ⟨t', -, rfl⟩ := Option.map_eq_some_iff.1 fed
  rfl

/-- A loaded view is in the relation. -/
theorem feed_init (apart : v.table.Apart f)
    (keyed : d.withDefaults.primaryKey = rel.primaryKey)
    (initial : (feed rel d f n fp).init v) : Mirrors d f n fp v.inst v.table := by
  obtain ⟨-, rows, snapshot, loaded⟩ := initial
  obtain ⟨inst, loaded', mirrors⟩ := loadSnapshot_mirrors keyed fp apart snapshot
  cases loaded.symm.trans loaded'
  exact mirrors

end Steps

/-! ## Rows stay complete and current -/

/-- The cache holds the matching rows of the table, and what the last change emitted as
an insert or update is a row of the table as it is now. -/
structure Current (f : Filter) (v : View rel C) : Prop where
  cached : v.inst.materialized = (v.table.visible f).val
  emitted : ∀ ev ∈ v.emitted, ev.op ≠ .delete → ev.row ∈ v.table.rows

/-- A column of the new row is not sent. -/
def Omits (sent : Option Row) (after : Row) : Prop := ∃ col ∈ after.keys, col ∉ sent.getD ∅

instance (sent : Option Row) (after : Row) : Decidable (Omits sent after) :=
  inferInstanceAs (Decidable (∃ col ∈ after.keys, _))

/-- What an update may omit.  Without a key column: nothing changed, or neither row matches
the filter.  With its key, of a row outside the shape: no column, unless neither the new row
nor what is sent of it matches. -/
def Shipment.Fits (f : Filter) (s : Shipment rel d n fp) : Prop :=
  match s.op with
  | .update before after =>
      if rel.HasKey s.change.new then
        f.match (some before) = true ∨ ¬ Omits s.change.new after ∨
          f.match s.change.new = false ∧ f.match (some after) = false
      else before = after ∨ f.match (some before) = false ∧ f.match (some after) = false
  | _ => True

instance (s : Shipment rel d n fp) : Decidable (s.Fits f) := by
  unfold Shipment.Fits
  cases s.op <;> infer_instance

section Rows

variable {v v' : View rel C} {op : RowOp} {ch : Change}

theorem Filter.select_eq_iff {a b : Row} :
    f.select (some a) = f.select (some b) ↔
      a = b ∨ f.match (some a) = false ∧ f.match (some b) = false := by
  rw [Filter.select_some, Filter.select_some]
  cases first : f.match (some a) <;> cases second : f.match (some b) <;> simp
  all_goals
    rintro rfl
    cases first.symm.trans second

/-- A row that omits nothing is the new row. -/
theorem omits_iff {part before after : Row} (unchanged : OmitsUnchanged part before after) :
    Omits (some part) after ↔ part ≠ after := by
  constructor
  · rintro ⟨col, here, absent⟩ rfl
    exact absent (Finmap.mem_keys.1 here)
  · intro differs
    by_contra whole
    refine differs (Finmap.ext_lookup fun col => ?_)
    rcases unchanged col with same | ⟨absent, -⟩
    · exact same
    · rw [absent, eq_comm, Finmap.lookup_eq_none]
      intro here
      exact whole ⟨col, Finmap.mem_keys.2 here, Finmap.lookup_eq_none.1 absent⟩

/-- **What fits, by what is left in the cache**: the new row, if that is in the shape. -/
theorem Shipment.fits_iff (s : Shipment rel d n fp) :
    s.Fits f ↔ leaves rel f s.op s.change = f.select s.op.after := by
  have ships := s.ships
  unfold Shipment.Fits
  cases op : s.op with
  | insert row | delete before => exact iff_of_true trivial rfl
  | update before after =>
      rw [op] at ships
      obtain ⟨-, -, part, isNew, unchanged⟩ := ships
      simp only [leaves, RowOp.after]
      split
      · split
        · next inShape => exact iff_of_true (.inl inShape) rfl
        · next outside =>
            rw [isNew, omits_iff unchanged, not_not, Filter.select_eq_iff]
            simp [outside]
      · rw [Filter.select_eq_iff]

/-- What a change that does not reach the cache leaves is what was there. -/
theorem leaves_of_still (still : ¬ Touches rel f op ch) :
    leaves rel f op ch = f.select op.before := by
  cases op with
  | insert row =>
      have unmatched : f.match (some row) = false := Bool.eq_false_of_not_eq_true still
      rw [leaves, Filter.select_some, if_neg (by simp [unmatched])]
      rfl
  | update before after => exact if_neg (not_not.1 still)
  | delete before => exact absurd id still

theorem Fed.current (fed : Fed d f n fp v v' op ch) (mirrors : Mirrors d f n fp v.inst v.table)
    (clear : Touches rel f op ch → v.table.Clear f op)
    (fits : leaves rel f op ch = f.select op.after) : Mirrors d f n fp v'.inst v'.table := by
  refine fed.mirrors v'.table ?_
  by_cases touches : Touches rel f op ch
  · rw [fed.cache touches, fits]
    exact mirrors.index_step (clear touches) fed.table
  · rw [fed.still touches, (Table.visible_eq_iff fed.table).2 (leaves_of_still touches ▸ fits)]
    exact mirrors.index

/-- A row that a fitting change emits is the row it leaves in the table. -/
theorem said_after (fits : leaves rel f op ch = f.select op.after) {m : Move}
    (spoken : m ∈ said rel f op ch) (stays : m.op ≠ .delete) : op.after = some m.row := by
  by_cases keyless : Keyless rel op ch
  · simp [said, keyless] at spoken
  · rw [said, if_neg keyless, Option.mem_toList] at spoken
    cases op with
    | insert row =>
        obtain ⟨r, selected, rfl⟩ := Option.map_eq_some_iff.1 spoken
        exact (Filter.select_eq_some.1 selected).1
    | update before after =>
        have keyed : rel.HasKey ch.new := not_not.1 keyless
        simp only [announced] at spoken
        simp only [leaves, keyed, if_true] at fits
        split at spoken
        · cases spoken
          split at stays
          · rename_i matched
            simp [matched, RowOp.after]
          · exact absurd rfl stays
        · rename_i outside
          rw [if_neg outside] at fits
          obtain ⟨r, selected, rfl⟩ := Option.map_eq_some_iff.1 spoken
          rw [fits] at selected
          exact (Filter.select_eq_some.1 selected).1
    | delete before =>
        obtain ⟨r, -, rfl⟩ := Option.map_eq_some_iff.1 spoken
        exact absurd rfl stays

/-- What an operation leaves in the cache has the operation's key. -/
theorem leaves_keyOf (ships : Ships rel op ch) {t t' : Table rel} (stepped : t.step op = some t')
    {row : Row} (left : leaves rel f op ch = some row) :
    rel.keyOf row = rel.keyOf op.target := by
  cases op with
  | insert r =>
      have selected : f.select (some r) = some row := left
      cases (Filter.select_eq_some.1 selected).1
      rfl
  | update before after =>
      have same : rel.keyOf after = rel.keyOf before := Table.step_keyOf stepped rfl
      obtain ⟨-, -, part, isNew, omits⟩ := ships
      simp only [leaves] at left
      split at left
      · rename_i carried
        split at left
        · cases (Filter.select_eq_some.1 left).1
          exact same
        · rw [isNew] at left carried
          cases (Filter.select_eq_some.1 left).1
          exact List.map_inj_left.2 (key_of_part omits same carried)
      · cases (Filter.select_eq_some.1 left).1
        rfl
  | delete _ => cases left

/-- A change that does not fit is seen in the cache at once. -/
theorem Fed.not_current (fed : Fed d f n fp v v' op ch) (ships : Ships rel op ch)
    (mirrors : Mirrors d f n fp v.inst v.table)
    (misfit : leaves rel f op ch ≠ f.select op.after) :
    v'.inst.materialized ≠ (v'.table.visible f).val := by
  intro exactly
  by_cases touches : Touches rel f op ch
  · have cached : ∀ row, (∃ key, v'.inst.cache.lookup key = some row) ↔
        row ∈ v'.table.visible f := by
      intro row
      rw [← KeyMap.mem_values, ← Finset.mem_val, ← exactly]
      rfl
    cases selected : f.select op.after with
    | some after =>
        -- the row the operation leaves is in the shape, and only its own key can hold it
        obtain ⟨left, matched⟩ := Filter.select_eq_some.1 selected
        have inTable := (Table.step_rows fed.table after).2 (Or.inr left)
        obtain ⟨key, found⟩ := (cached after).2 (Table.mem_visible.2 ⟨inTable, matched⟩)
        rw [fed.cache touches, KeyMap.lookup_set] at found
        split at found
        · exact misfit (found.trans selected.symm)
        · rename_i other
          exact other (((mirrors.index key after).1 found).2.symm.trans
            (Table.step_keyText fed.table left))
    | none =>
        cases kept : leaves rel f op ch with
        | none => exact misfit (kept.trans selected.symm)
        | some row =>
            have found : v'.inst.cache.lookup (rel.keyText op.target) = some row := by
              rw [fed.cache touches, KeyMap.lookup_set, if_pos rfl, kept]
            obtain ⟨member, matched⟩ := Table.mem_visible.1 ((cached row).1 ⟨_, found⟩)
            rcases (Table.step_rows fed.table row).1 member with ⟨old, apart⟩ | left
            · exact apart (Table.step_unique fed.table old (leaves_keyOf ships fed.table kept))
            · rw [left, Filter.select_some, if_pos matched] at selected
              cases selected
  · -- the cache is as before, the matching rows are not
    have before : v.inst.materialized = (v.table.visible f).val := mirrors.index.values_eq
    rw [leaves_of_still touches] at misfit
    refine misfit ((Table.visible_eq_iff fed.table).1 (Finset.val_injective ?_))
    rw [← exactly, ← before, Instance.materialized, fed.still touches]
    rfl

/-- A row with another primary key under the cache key of a change is overwritten or
dropped. -/
theorem project_clash {inst : Instance C} {t t' : Table rel}
    (mirrors : Mirrors d f n fp inst t) (keyed : d.withDefaults.primaryKey = rel.primaryKey)
    (stepped : t.step op = some t') (ships : Ships rel op ch) (touches : Touches rel f op ch)
    {r : Row} (visible : r ∈ t.visible f) (same : rel.keyText r = rel.keyText op.target)
    (other : op.before ≠ some r) :
    ∃ m left, inst.project ch = .ok (some m) ∧ left ≠ some r ∧
      m.cache inst.cache = inst.cache.set (rel.keyText op.target) left := by
  have member := (Table.mem_visible.1 visible).1
  have cached : inst.cache.lookup (rel.keyText op.target) = some r :=
    same ▸ mirrors.index.lookup_key visible
  have found {row : Row} (key : ∀ col ∈ rel.primaryKey, row.lookup col = op.target.lookup col) :
      inst.lookup (some row) = .ok (rel.keyText op.target, some r) := by
    simp only [Instance.lookup, mirrors.defn, keyed, pkKey_congr key,
      rel.pkKey_admitted (Table.step_target stepped), Except.map, cached]
  cases op with
  | insert row =>
      have matched : f.match (some row) = true := touches
      refine ⟨⟨.insert, rel.keyText row, row⟩, some row, ?_, ?_, rfl⟩
      · rw [project_shipped_insert mirrors keyed stepped ships, announced, Filter.select_some,
          if_pos matched]
        rfl
      · rintro ⟨⟩
        exact other (Table.step_unique stepped member rfl)
  | update before after =>
      obtain ⟨isUpdate, noOld, part, isNew, omits⟩ := ships
      have carried : rel.HasKey (some part) := isNew ▸ not_not.1 touches
      have key := key_of_part omits (Table.step_keyOf stepped rfl) carried
      -- the omitted columns are taken from the other row
      have merged : patchRow (some r) none (some part) = part ∪ r := by
        simp [patchRow, Finmap.union_empty]
      have apart : some (part ∪ r) ≠ some r := by
        intro equal
        refine other (Table.step_unique stepped member (List.map_inj_left.2 fun col held => ?_))
        obtain ⟨value, here⟩ : ∃ value, part.lookup col = some value :=
          Finmap.mem_iff.1 (carried col held)
        rw [← Option.some.inj equal, KeyMap.lookup_union_eq, here, RowOp.target, ← key col held,
          here]
        rfl
      simp only [Instance.project, isUpdate, Instance.applyUpdate, noOld, isNew, firstNonNil,
        Option.none_or, found key, Except.map, Instance.beforeRow, Option.some_or, merged]
      cases inst.filter.match (some (part ∪ r)) with
      | true => exact ⟨_, _, rfl, apart, rfl⟩
      | false => exact ⟨_, none, rfl, Option.some_ne_none r |>.symm, rfl⟩
  | delete before =>
      obtain ⟨isDelete, old, isOld, keyOnly⟩ := ships
      refine ⟨⟨.delete, rel.keyText before, r⟩, none, ?_, Option.some_ne_none r |>.symm, rfl⟩
      simp only [Instance.project, isDelete, Instance.applyDelete, isOld, found keyOnly.key,
        Except.map]
      rfl

/-- A clash is seen in the cache at once: a row of the shape is lost. -/
theorem clash_not_current {s : Shipment rel d n fp} (mirrors : Mirrors d f n fp v.inst v.table)
    (keyed : d.withDefaults.primaryKey = rel.primaryKey)
    (fed : (feed rel d f n fp).step v s = some v') (clash : ¬ s.Clear f v.table) :
    v'.inst.materialized ≠ (v'.table.visible f).val := by
  intro exactly
  obtain ⟨t', stepped, rfl⟩ := Option.map_eq_some_iff.1 fed
  simp only [Shipment.Clear, Table.Clear, not_forall] at clash
  obtain ⟨touches, r, visible, same, other⟩ := clash
  obtain ⟨m, left, decided, lost, written⟩ :=
    project_clash mirrors keyed stepped s.ships touches visible same other
  obtain ⟨inst', evs, applied, -, -, cache, -⟩ :=
    mirrors.apply_decided s.mine s.later s.stamped decided
  obtain ⟨member, matched⟩ := Table.mem_visible.1 visible
  have stays : r ∈ t'.visible f :=
    Table.mem_visible.2 ⟨(Table.step_rows stepped r).2 (.inl ⟨member, other⟩), matched⟩
  rw [← Finset.mem_val, ← exactly, applied] at stays
  obtain ⟨key, found⟩ := (KeyMap.mem_values _ _).1 stays
  rw [cache, decidedCache, written, KeyMap.lookup_set] at found
  split at found
  · exact lost found
  · next elsewhere => exact elsewhere (((mirrors.index key r).1 found).2.symm.trans same)

/-- A snapshot that is cached as a whole has cache keys of its own. -/
theorem apart_of_current (keyed : d.withDefaults.primaryKey = rel.primaryKey)
    (initial : (feed rel d f n fp).init v)
    (current : v.inst.materialized = (v.table.visible f).val) : v.table.Apart f := by
  obtain ⟨-, rows, -, loaded⟩ := initial
  have empty : ({ Instance.start d f with snapshotLSN := n, hasSnapshot := true } :
      Instance C).Keyed := by
    intro key r found
    simp [Instance.start] at found
  obtain ⟨stored, defn, -⟩ := Instance.loadRows_cached empty loaded
  have primaryKey : v.inst.defn.primaryKey = rel.primaryKey := by
    rw [defn]
    exact keyed
  have found : ∀ r ∈ v.table.visible f, v.inst.cache.lookup (rel.keyText r) = some r := by
    intro r visible
    have admitted := v.table.admitted r (Table.mem_visible.1 visible).1
    rw [← Finset.mem_val, ← current] at visible
    obtain ⟨key, held⟩ := (KeyMap.mem_values _ _).1 visible
    have own := stored key r held
    rw [primaryKey, rel.pkKey_admitted admitted] at own
    rw [Except.ok.inj own, held]
  intro r visible r' visible' same
  have there := found r' visible'
  rw [← same, found r visible] at there
  exact Option.some.inj there

/-- **Rows stay complete and current, exactly as long as cache keys are not shared and no
update omits too much.**  The matching rows of the snapshot have cache keys of their own, no
change that reaches the cache meets a row with another primary key there, and every update
fits. -/
theorem cache_current_iff (keyed : d.withDefaults.primaryKey = rel.primaryKey)
    (initial : (feed rel d f n fp).init v) {shipments : List (Shipment rel d n fp)}
    (ran : (feed rel d f n fp).run v shipments = some v') :
    (feed rel d f n fp).Along (Current f) v shipments ↔
      v.table.Apart f ∧ (feed rel d f n fp).Meets (fun v s => s.Clear f v.table) v shipments ∧
        ∀ s ∈ shipments, s.Fits f := by
  have exactly (apart : v.table.Apart f) : (feed rel d f n fp).Along (Current f) v shipments ↔
      (feed rel d f n fp).Meets (fun v s => s.Clear f v.table ∧ s.Fits f) v shipments := by
    refine Machine.along_iff_meets
      (I := fun v => Mirrors d f n fp v.inst v.table ∧
        ∀ ev ∈ v.emitted, ev.op ≠ .delete → ev.row ∈ v.table.rows)
      (fun v inv => ⟨inv.1.index.values_eq, inv.2⟩) ?_ ?_ ?_ shipments
    · rintro v s v' inv ⟨clear, fits⟩ stepped
      rw [Shipment.fits_iff] at fits
      have fed := feed_step inv.1 clear keyed stepped
      refine ⟨fed.current inv.1 clear fits, fun ev member stays => ?_⟩
      rw [fed.emitted] at member
      obtain ⟨m, spoken, rfl⟩ := List.mem_map.1 member
      exact (Table.step_rows fed.table m.row).2 (Or.inr (said_after fits spoken stays))
    · intro v s v' inv unmet stepped current
      by_cases clear : s.Clear f v.table
      · have misfit : ¬ s.Fits f := fun fits => unmet ⟨clear, fits⟩
        rw [Shipment.fits_iff] at misfit
        have fed := feed_step inv.1 clear keyed stepped
        exact fed.not_current s.ships inv.1 misfit current.cached
      · exact clash_not_current inv.1 keyed stepped clear current.cached
    · refine ⟨feed_init apart keyed initial, fun ev member => ?_⟩
      rw [initial.1] at member
      cases member
  rw [← Machine.meets_iff_forall ran]
  constructor
  · intro along
    have apart := apart_of_current keyed initial along.head.cached
    have meets := (exactly apart).1 along
    exact ⟨apart, meets.mono fun _ _ both => both.1, meets.mono fun _ _ both => both.2⟩
  · rintro ⟨apart, clear, fits⟩
    exact (exactly apart).2 (clear.and fits)

end Rows

namespace Notes

def note (id : Int64) (status : String) (body : Value) : Row :=
  KeyMap.ofList [("id", .int64 id), ("status", .string status), ("body", body)]

def admitted : List Row :=
  [note 1 "open" .null, note 1 "done" .null, note 2 "open" (.string "b"),
    note 2 "done" (.string "b")]

theorem id_ne_nil : ["id"] ≠ [] := List.cons_ne_nil _ _

def notes : Relation where
  columns := {"id", "status", "body"}
  primaryKey := ["id"]
  admits row := admitted.contains row
  complete row member := by
    have each : ∀ r ∈ admitted, r.keys = {"id", "status", "body"} := by decide
    exact each row (List.contains_iff_mem.1 member)
  key_columns := by decide
  key_nonempty := id_ne_nil

def defn : Definition Unit :=
  { name := "notes", schema := "", table := "", primaryKey := [], bind := none }

/-- `body IS NULL` -/
def blank : Filter := ⟨[{ column := "body", op := .isNull }]⟩

/-- Two notes, the first one without a body, and a shape loaded with `rows`. -/
def loaded (f : Filter) (rows : List Row) : View notes Unit where
  table := ⟨{note 1 "open" .null, note 2 "done" (.string "b")}, by decide, by decide⟩
  inst := ((Instance.start defn f).loadSnapshot 5 (rows.map some)).1

theorem loaded_init : (feed notes defn blank 5 "v1").init (loaded blank [note 1 "open" .null]) :=
  ⟨rfl, [note 1 "open" .null], by decide, rfl⟩

def change (op : Op) (old new : Option Row) : Change :=
  { schema := "public", table := "notes", op := op, relationFingerprint := "v1", commitLSN := 10,
    old := old, new := new }

theorem change_later (op : Op) (old new : Option Row) : 5 < (change op old new).commitLSN := by
  simp [change]

theorem omits_body (id : Int64) (status status' : String) (body : Value) :
    OmitsUnchanged (KeyMap.ofList [("id", .int64 id), ("status", .string status')])
      (note id status body) (note id status' body) := by
  intro col
  by_cases omitted : col = "body"
  · subst omitted
    exact Or.inr ⟨by simp [KeyMap.lookup_ofList_cons, KeyMap.lookup_ofList_nil],
      by simp [note, KeyMap.lookup_ofList_cons]⟩
  · exact Or.inl (by simp [note, KeyMap.lookup_ofList_cons, KeyMap.lookup_ofList_nil, omitted])

/-- A new status; the body is TOASTed and comes only with `whole`. -/
def restatus (id : Int64) (status status' : String) (body : Value) (whole : Bool) :
    Shipment notes defn 5 "v1" where
  op := .update (note id status body) (note id status' body)
  change := change .update none (some (if whole then note id status' body
    else KeyMap.ofList [("id", .int64 id), ("status", .string status')]))
  ships := by
    refine ⟨rfl, rfl, _, rfl, ?_⟩
    cases whole
    · exact omits_body id status status' body
    · exact fun col => Or.inl rfl
  mine := rfl
  later := change_later _ _ _
  stamped := rfl

/-- The body may be omitted for the note in the shape, not for the other one. -/
theorem cache_current_iff_restatus :
    ((feed notes defn blank 5 "v1").run (loaded blank [note 1 "open" .null])
        [restatus 1 "open" "done" .null false, restatus 2 "done" "open" (.string "b") true]).map
        (fun v => v.inst.materialized) = some {note 1 "done" .null} ∧
      (feed notes defn blank 5 "v1").Along (Current blank) (loaded blank [note 1 "open" .null])
        [restatus 1 "open" "done" .null false, restatus 2 "done" "open" (.string "b") true] := by
  have ran : ((feed notes defn blank 5 "v1").run (loaded blank [note 1 "open" .null])
      [restatus 1 "open" "done" .null false,
        restatus 2 "done" "open" (.string "b") true]).isSome := by decide
  obtain ⟨v', ran⟩ := Option.isSome_iff_exists.1 ran
  exact ⟨by decide, (cache_current_iff (by decide) loaded_init ran).2
    ⟨by decide, by decide, by decide⟩⟩

/-- A note with a body enters the shape of the notes without one, because the change
that gives it a new status omits the body. -/
theorem restatus_enters_blank :
    parseWhere .ascii (.ofString "body IS NULL") [] = .ok blank ∧
      ((feed notes defn blank 5 "v1").run (loaded blank [note 1 "open" .null])
        [restatus 2 "done" "open" (.string "b") false]).map
        (fun v => (v.inst.materialized, v.table.visible blank)) =
        some ({KeyMap.ofList [("id", .int64 2), ("status", .string "open")], note 1 "open" .null},
          {note 1 "open" .null}) ∧
      ¬ (feed notes defn blank 5 "v1").Along (Current blank) (loaded blank [note 1 "open" .null])
        [restatus 2 "done" "open" (.string "b") false] := by
  have replayed : ((feed notes defn blank 5 "v1").run (loaded blank [note 1 "open" .null])
      [restatus 2 "done" "open" (.string "b") false]).map
      (fun v => (v.inst.materialized, v.table.visible blank)) =
      some ({KeyMap.ofList [("id", .int64 2), ("status", .string "open")], note 1 "open" .null},
        {note 1 "open" .null}) := by decide
  refine ⟨by decide +kernel, replayed, fun along => ?_⟩
  obtain ⟨v', ran, seen⟩ := Option.map_eq_some_iff.1 replayed
  have current := (along.last ran).cached
  rw [(Prod.mk.injEq ..).mp seen |>.1, (Prod.mk.injEq ..).mp seen |>.2] at current
  exact absurd current (by decide)

end Notes

end Tether.Shape
