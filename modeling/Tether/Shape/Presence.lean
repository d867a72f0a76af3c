/-
# Tether.Shape.Presence — events speak only of rows in the shape

For every primary key the log of a shape reads insert, updates, delete, insert, and so
on; `presence` is that two-state machine, and the state it has reached is whether a
row with the key is in the shape (`Spoken`).  `said_transition` says what one change
logs: the step from the row's presence before to its presence after.

The branch that breaks the law is the delete of a row that is not cached.  The source
then tests the filter on the tuple it was sent, whose columns outside the key are
NULL, and logs a delete if it matches.  `events_alternate_iff` is exact: nothing else
breaks it.
-/
import Tether.Shape.DefaultIdentity

namespace Tether.Shape

open Tether.Lib Tether.Wal

set_option autoImplicit false

variable {C : Type} {rel : Relation} {d : Definition C} {f : Filter} {n : LSN} {fp : String}

/-! ## Events speak of rows in the shape -/

/-- What may be logged for one row: `true` while it is in the shape. -/
def presence : Machine Bool EventOp where
  init inShape := inShape = false
  step
    | false, .insert => some true
    | true, .update => some true
    | true, .delete => some false
    | _, _ => none

/-- The operations logged for one primary key. -/
def opsOf (rel : Relation) (key : List (Option Value)) (events : List Event) : List EventOp :=
  (events.filter fun ev => rel.keyOf ev.row = key).map Event.op

namespace View

variable (v : View rel C)

/-- For every key: insert, any number of updates, delete, and so on. -/
def Alternates : Prop :=
  ∀ key, ∃ inShape, presence.run false (opsOf rel key v.inst.log.events) = some inShape

/-- A row with this key is in the cache. -/
def InShape (key : List (Option Value)) : Prop := ∃ row ∈ v.inst.materialized, rel.keyOf row = key

/-- What the change is about to log is about rows in the shape, inserts apart, which are
about rows outside it; the delete of a row outside it logs nothing. -/
structure Speaks (s : Shipment rel d n fp) : Prop where
  insert : ∀ ev ∈ v.answer s.change, ev.op = .insert → ¬ v.InShape (rel.keyOf ev.row)
  other : ∀ ev ∈ v.answer s.change, ev.op ≠ .insert → v.InShape (rel.keyOf ev.row)
  outside : ∀ before, s.op = .delete before → ¬ v.InShape (rel.keyOf before) →
    v.answer s.change = []

end View

namespace Shipment

/-- The new row of an update is complete. -/
def Complete (s : Shipment rel d n fp) : Prop :=
  ∀ before after, s.op = .update before after → s.change.new = some after

/-- The tuple sent for a deleted row outside the shape does not match the filter. -/
def NoGhost (f : Filter) (s : Shipment rel d n fp) : Prop :=
  ∀ before old, s.op = .delete before → s.change.old = some old →
    f.match (some before) = false → f.match (some old) = false

end Shipment

/-- What is logged for a row by its presence before and after. -/
def transition : Bool → Bool → List EventOp
  | false, false => []
  | false, true => [.insert]
  | true, true => [.update]
  | true, false => [.delete]

theorem mem_transition {was now : Bool} {op : EventOp} (logged : op ∈ transition was now) :
    op = .insert ↔ was = false := by
  cases was <;> cases now <;> simp_all [transition]

theorem presence_transition (was now : Bool) :
    presence.run was (transition was now) = some now := by
  cases was <;> cases now <;> rfl

section Events

variable {v v' : View rel C} {op : RowOp} {ch : Change} {t t' : Table rel}

theorem opsOf_append (key : List (Option Value)) (events later : List Event) :
    opsOf rel key (events ++ later) = opsOf rel key events ++ opsOf rel key later := by
  simp [opsOf]

/-- A row with this key is in the table and matches. -/
def Table.present (t : Table rel) (f : Filter) (key : List (Option Value)) : Bool :=
  decide (∃ r ∈ t.visible f, rel.keyOf r = key)

theorem Table.present_iff {key : List (Option Value)} :
    t.present f key = true ↔ ∃ r ∈ t.visible f, rel.keyOf r = key :=
  decide_eq_true_iff

/-- The presence of the operation's own key, before it. -/
theorem Table.present_target (stepped : t.step op = some t') :
    t.present f (rel.keyOf op.target) = (f.select op.before).isSome := by
  have held : ∀ before ∈ t.rows,
      t.present f (rel.keyOf before) = (f.select (some before)).isSome := by
    intro before member
    rw [Bool.eq_iff_iff, Table.present_iff, Filter.select_some]
    constructor
    · rintro ⟨r, visible, same⟩
      obtain ⟨here, matched⟩ := Table.mem_visible.1 visible
      rw [t.unique r here before member same] at matched
      simp [matched]
    · intro selected
      split at selected
      · rename_i matched
        exact ⟨before, Table.mem_visible.2 ⟨member, matched⟩, rfl⟩
      · cases selected
  cases op with
  | insert row =>
      simp only [step, Option.dite_none_right_eq_some] at stepped
      refine decide_eq_false ?_
      rintro ⟨r, visible, same⟩
      exact stepped.1.2 r (Table.mem_visible.1 visible).1 same
  | update before after =>
      simp only [step, Option.dite_none_right_eq_some] at stepped
      exact held before stepped.1.1
  | delete before =>
      simp only [step, Option.ite_none_right_eq_some] at stepped
      exact held before stepped.1

/-- The presence of a key, after an operation. -/
theorem Table.present_step (stepped : t.step op = some t') (key : List (Option Value)) :
    t'.present f key =
      if key = rel.keyOf op.target then (f.select op.after).isSome else t.present f key := by
  rw [Bool.eq_iff_iff, Table.present_iff]
  by_cases own : key = rel.keyOf op.target
  · subst own
    rw [if_pos rfl, Option.isSome_iff_exists]
    constructor
    · rintro ⟨r, visible, same⟩
      obtain ⟨member, matched⟩ := Table.mem_visible.1 visible
      rcases (Table.step_rows stepped r).1 member with ⟨old, other⟩ | left
      · exact absurd (Table.step_unique stepped old same) other
      · exact ⟨r, Filter.select_eq_some.2 ⟨left, matched⟩⟩
    · rintro ⟨r, selected⟩
      obtain ⟨left, matched⟩ := Filter.select_eq_some.1 selected
      exact ⟨r, Table.mem_visible.2 ⟨(Table.step_rows stepped r).2 (.inr left), matched⟩,
        Table.step_keyOf stepped left⟩
  · rw [if_neg own, Table.present_iff]
    constructor
    · rintro ⟨r, visible, same⟩
      obtain ⟨member, matched⟩ := Table.mem_visible.1 visible
      rcases (Table.step_rows stepped r).1 member with ⟨old, -⟩ | left
      · exact ⟨r, Table.mem_visible.2 ⟨old, matched⟩, same⟩
      · exact absurd (same.symm.trans (Table.step_keyOf stepped left)) own
    · rintro ⟨r, visible, same⟩
      obtain ⟨member, matched⟩ := Table.mem_visible.1 visible
      refine ⟨r, Table.mem_visible.2 ⟨(Table.step_rows stepped r).2 (.inl ⟨member, ?_⟩), matched⟩,
        same⟩
      intro replaced
      rw [(Table.step_before stepped replaced).2] at own
      exact own same.symm

theorem complete_leaves {s : Shipment rel d n fp} (complete : s.Complete)
    (stepped : t.step s.op = some t') :
    ¬ Keyless rel s.op s.change ∧ leaves rel f s.op s.change = f.select s.op.after := by
  cases op : s.op with
  | insert row => exact ⟨id, rfl⟩
  | delete before => exact ⟨id, rfl⟩
  | update before after =>
      have whole := complete before after op
      rw [op] at stepped
      simp only [Table.step, Option.dite_none_right_eq_some] at stepped
      have carried : rel.HasKey s.change.new := by
        intro col member
        rw [whole, Option.getD_some, ← Finmap.mem_keys, rel.complete after stepped.1.2.1]
        exact rel.key_columns col member
      refine ⟨not_not.2 carried, ?_⟩
      rw [leaves, if_pos carried, whole, ite_self]
      rfl

/-- Complete new rows and no ghosts: what is said follows from the row's presence. -/
theorem said_transition {s : Shipment rel d n fp} (complete : s.Complete) (solid : s.NoGhost f)
    (stepped : t.step s.op = some t') :
    (said rel f s.op s.change).map Move.op =
        transition (f.select s.op.before).isSome (f.select s.op.after).isSome ∧
      ∀ m ∈ said rel f s.op s.change, rel.keyOf m.row = rel.keyOf s.op.target := by
  have carried := (complete_leaves (f := f) complete stepped).1
  rw [said, if_neg carried]
  have ships := s.ships
  cases op : s.op with
  | insert row =>
      simp only [announced, RowOp.before, RowOp.after, RowOp.target, Filter.select_some]
      split <;> simp [transition]
  | update before after =>
      rw [op] at stepped
      simp only [Table.step, Option.dite_none_right_eq_some] at stepped
      have same := stepped.1.2.2
      simp only [announced, RowOp.before, RowOp.after, RowOp.target, Filter.select_some,
        complete before after op]
      cases f.match (some before) <;> cases f.match (some after) <;> simp [transition, same]
  | delete before =>
      rw [op] at ships
      obtain ⟨-, old, isOld, -⟩ := ships
      have ghost := solid before old op isOld
      simp only [announced, RowOp.before, RowOp.after, RowOp.target, Filter.select_some, isOld]
      cases matched : f.match (some before) with
      | true => simp [transition]
      | false => simp [transition, ghost matched]

theorem Mirrors.inShape_iff (mirrors : Mirrors d f n fp v.inst v.table)
    (key : List (Option Value)) :
    v.InShape key ↔ v.table.present f key = true := by
  have rows : v.inst.materialized = (v.table.visible f).val := mirrors.index.values_eq
  simp only [View.InShape, rows, Finset.mem_val, Table.present_iff]

/-- Every key's events have led to its presence in the shape. -/
structure Spoken (d : Definition C) (f : Filter) (n : LSN) (fp : String) (v : View rel C) :
    Prop where
  mirrors : Mirrors d f n fp v.inst v.table
  ops : ∀ key, presence.run false (opsOf rel key v.inst.log.events) =
    some (v.table.present f key)

theorem Fed.spoken {s : Shipment rel d n fp} (fed : Fed d f n fp v v' s.op s.change)
    (spoken : Spoken d f n fp v) (clear : s.Clear f v.table) (complete : s.Complete)
    (solid : s.NoGhost f) : Spoken d f n fp v' := by
  obtain ⟨ops, keys⟩ := said_transition complete solid fed.table
  refine ⟨fed.current spoken.mirrors clear (complete_leaves complete fed.table).2, fun key => ?_⟩
  rw [fed.log, opsOf_append, Machine.run_append, spoken.ops key, Option.bind_some]
  have logged : opsOf rel key v'.emitted =
      if key = rel.keyOf s.op.target then
        transition (f.select s.op.before).isSome (f.select s.op.after).isSome
      else [] := by
    rw [fed.emitted, opsOf, ← ops]
    split
    · rename_i own
      rw [List.filter_eq_self.2]
      · simp
      · intro ev member
        obtain ⟨m, said, rfl⟩ := List.mem_map.1 member
        simp [keys m said, own]
    · rename_i other
      rw [List.filter_eq_nil_iff.2]
      · rfl
      · intro ev member
        obtain ⟨m, said, rfl⟩ := List.mem_map.1 member
        simpa [keys m said] using Ne.symm other
  rw [logged, Table.present_step fed.table]
  by_cases own : key = rel.keyOf s.op.target
  · rw [if_pos own, if_pos own, own, Table.present_target fed.table]
    exact presence_transition _ _
  · rw [if_neg own, if_neg own]
    rfl

/-- A snapshot logs one insert for each of its rows. -/
theorem loadRows_events {inst inst' : Instance C} (live : inst.log.halted = none)
    {rows : List Row} (matched : ∀ r ∈ rows, inst.filter.match (some r) = true)
    (loaded : inst.loadRows (rows.map some) = (inst', .ok ())) (key : List (Option Value)) :
    opsOf rel key inst'.log.events = opsOf rel key inst.log.events ++
      (rows.filter fun r => rel.keyOf r = key).map fun _ => EventOp.insert := by
  induction rows generalizing inst with
  | nil =>
      cases loaded
      simp
  | cons row rows ih =>
      simp only [List.map_cons, Instance.loadRows, matched row List.mem_cons_self, if_true]
        at loaded
      cases own : pkKey inst.defn.primaryKey row with
      | error err => simp [own] at loaded
      | ok k =>
          simp only [own, Instance.record_live live] at loaded
          rw [ih (by exact live)
            (by exact fun r member => matched r (List.mem_cons_of_mem _ member)) loaded,
            Log.push_events, opsOf_append, List.append_assoc]
          congr 1
          by_cases here : rel.keyOf row = key <;> simp [opsOf, here]

theorem presence_rows {rows : List Row} (keys : rows.Pairwise fun a b => rel.keyOf a ≠ rel.keyOf b)
    (key : List (Option Value)) :
    presence.run false ((rows.filter fun r => rel.keyOf r = key).map fun _ => EventOp.insert) =
      some (decide (∃ r ∈ rows, rel.keyOf r = key)) := by
  induction rows with
  | nil => simp [Machine.run]
  | cons row rows ih =>
      obtain ⟨apart, rest⟩ := List.pairwise_cons.1 keys
      by_cases here : rel.keyOf row = key
      · have nothing : (rows.filter fun r => decide (rel.keyOf r = key)) = [] :=
          List.filter_eq_nil_iff.2 fun r member => by
            simpa [← here] using Ne.symm (apart r member)
        simp [here, nothing, Machine.run, presence]
      · simpa [here] using ih rest

theorem spoken_init (apart : v.table.Apart f)
    (keyed : d.withDefaults.primaryKey = rel.primaryKey)
    (initial : (feed rel d f n fp).init v) : Spoken d f n fp v := by
  refine ⟨feed_init apart keyed initial, fun key => ?_⟩
  obtain ⟨-, rows, snapshot, loaded⟩ := initial
  have member : ∀ r, r ∈ rows ↔ r ∈ v.table.visible f := by
    intro r
    rw [← Finset.mem_val, ← snapshot, Multiset.mem_coe]
  have nodup : rows.Nodup := by
    rw [← Multiset.coe_nodup, snapshot]
    exact (v.table.visible f).nodup
  have keys : rows.Pairwise fun a b => rel.keyOf a ≠ rel.keyOf b := by
    refine nodup.pairwise_of_forall_ne fun a first b second apart same => apart ?_
    exact v.table.unique a (Table.mem_visible.1 ((member a).1 first)).1 b
      (Table.mem_visible.1 ((member b).1 second)).1 same
  have events : opsOf rel key v.inst.log.events =
      [] ++ (rows.filter fun r => rel.keyOf r = key).map fun _ => EventOp.insert :=
    loadRows_events rfl (fun r here => (Table.mem_visible.1 ((member r).1 here)).2) loaded key
  rw [events, List.nil_append, presence_rows keys, Table.present]
  simp only [member]

/-- What a change logs, against the presence of its row. -/
theorem Fed.speaks {s : Shipment rel d n fp} (fed : Fed d f n fp v v' s.op s.change)
    (answered : v'.emitted = v.answer s.change) (mirrors : Mirrors d f n fp v.inst v.table)
    (complete : s.Complete) (solid : s.NoGhost f) : v.Speaks s := by
  obtain ⟨ops, keys⟩ := said_transition complete solid fed.table
  have was : v.InShape (rel.keyOf s.op.target) ↔ (f.select s.op.before).isSome = true := by
    rw [mirrors.inShape_iff, Table.present_target fed.table]
  have each : ∀ ev ∈ v.answer s.change, rel.keyOf ev.row = rel.keyOf s.op.target ∧
      ev.op ∈ transition (f.select s.op.before).isSome (f.select s.op.after).isSome := by
    intro ev member
    rw [← answered, fed.emitted] at member
    obtain ⟨m, said, rfl⟩ := List.mem_map.1 member
    exact ⟨keys m said, ops ▸ List.mem_map_of_mem said⟩
  refine ⟨fun ev member insert => ?_, fun ev member other => ?_, fun before deleted away => ?_⟩
  · obtain ⟨key, logged⟩ := each ev member
    rw [key, was, (mem_transition logged).1 insert]
    exact Bool.false_ne_true
  · obtain ⟨key, logged⟩ := each ev member
    rw [key, was]
    exact Bool.eq_true_of_not_eq_false fun gone => other ((mem_transition logged).2 gone)
  · rw [deleted] at was ops
    rw [← answered, fed.emitted, deleted]
    have gone : (f.select (some before)).isSome = false := by
      simpa [RowOp.before] using mt was.2 away
    simp only [RowOp.before, RowOp.after, gone, Filter.select_none, Option.isSome_none,
      transition, List.map_eq_nil_iff] at ops
    rw [ops, List.map_nil]

/-- A delete outside the shape that logs nothing was sent with a tuple that does not
match. -/
theorem Fed.noGhost {s : Shipment rel d n fp} (fed : Fed d f n fp v v' s.op s.change)
    (answered : v'.emitted = v.answer s.change) (mirrors : Mirrors d f n fp v.inst v.table)
    (speaks : v.Speaks s) : s.NoGhost f := by
  intro before old deleted isOld unmatched
  have away : ¬ v.InShape (rel.keyOf before) := by
    have target := Table.present_target (f := f) fed.table
    rw [deleted] at target
    rw [mirrors.inShape_iff,
      show rel.keyOf before = rel.keyOf (RowOp.delete before).target from rfl, target]
    simp [RowOp.before, Filter.select_some, unmatched]
  have silent := speaks.outside before deleted away
  rw [← answered, fed.emitted, deleted] at silent
  simpa [said, Keyless, announced, isOld, Filter.select_some, unmatched] using silent

/-- **Events speak of rows in the shape, exactly as long as no delete is a ghost**, where
cache keys are not shared: the matching rows of the snapshot have cache keys of their own, and
no change that reaches the cache meets a row with another primary key there. -/
theorem events_alternate_iff (keyed : d.withDefaults.primaryKey = rel.primaryKey)
    (initial : (feed rel d f n fp).init v) {shipments : List (Shipment rel d n fp)}
    (complete : ∀ s ∈ shipments, s.Complete)
    (ran : (feed rel d f n fp).run v shipments = some v') (apart : v.table.Apart f)
    (clear : (feed rel d f n fp).Meets (fun v s => s.Clear f v.table) v shipments) :
    ((feed rel d f n fp).Along View.Alternates v shipments ∧
        (feed rel d f n fp).Meets View.Speaks v shipments) ↔
      ∀ s ∈ shipments, s.NoGhost f := by
  have whole := clear.and ((Machine.meets_iff_forall ran).2 complete)
  have spoken := spoken_init apart keyed initial
  have keeps : ∀ v s v', Spoken d f n fp v →
      (s.Clear f v.table ∧ s.Complete) ∧ s.NoGhost f →
      (feed rel d f n fp).step v s = some v' → Spoken d f n fp v' := by
    rintro v s v' spoken ⟨⟨clear, complete⟩, solid⟩ stepped
    exact (feed_step spoken.mirrors clear keyed stepped).spoken spoken clear complete solid
  constructor
  · rintro ⟨-, speaks⟩
    rw [← Machine.meets_iff_forall ran]
    refine Machine.Meets.imp (I := fun v => Mirrors d f n fp v.inst v.table) ?_ ?_ spoken.mirrors
      (whole.and speaks)
    · rintro v s v' mirrors ⟨⟨clear, complete⟩, -⟩ stepped
      have fed := feed_step mirrors clear keyed stepped
      exact fed.current mirrors clear (complete_leaves complete fed.table).2
    · rintro v s v' mirrors ⟨⟨clear, -⟩, speaks⟩ stepped
      have fed := feed_step mirrors clear keyed stepped
      exact fed.noGhost (feed_emitted stepped) mirrors speaks
  · intro solid
    have fine := whole.and ((Machine.meets_iff_forall ran).2 solid)
    refine ⟨Machine.along_of_meets (fun v spoken key => ⟨_, spoken.ops key⟩) keeps spoken fine,
      fine.imp keeps ?_ spoken⟩
    rintro v s v' spoken ⟨⟨clear, complete⟩, solid⟩ stepped
    have fed := feed_step spoken.mirrors clear keyed stepped
    exact fed.speaks (feed_emitted stepped) spoken.mirrors complete solid

end Events

namespace Notes

def openNotes : Filter := ⟨[{ column := "status", op := .eq, value := .string "open" }]⟩

/-- The key of the note, and NULL for the rest. -/
def keyOnly (id : Int64) : Row :=
  KeyMap.ofList [("id", .int64 id), ("status", .null), ("body", .null)]

def deleted (id : Int64) (status : String) (body : Value) : Shipment notes defn 5 "v1" where
  op := .delete (note id status body)
  change := change .delete (some (keyOnly id)) none
  ships := by
    refine ⟨rfl, _, rfl, fun col => ?_⟩
    by_cases key : col = "id"
    · simp [key, keyOnly, notes, note, KeyMap.lookup_ofList_cons]
    · by_cases status : col = "status" <;> by_cases body : col = "body" <;>
        simp [keyOnly, notes, KeyMap.lookup_ofList_cons, KeyMap.lookup_ofList_nil, key, status,
          body]
  mine := rfl
  later := change_later _ _ _
  stamped := rfl

/-- The open note is closed and opened again; the delete of the closed one is not logged. -/
theorem events_alternate_iff_openNotes :
    ((feed notes defn openNotes 5 "v1").run (loaded openNotes [note 1 "open" .null])
        [restatus 1 "open" "done" .null true, deleted 2 "done" (.string "b"),
          restatus 1 "done" "open" .null true]).map
        (fun v => v.inst.log.events.map Event.op) = some [.insert, .delete, .insert] ∧
      (feed notes defn openNotes 5 "v1").Along View.Alternates
        (loaded openNotes [note 1 "open" .null])
        [restatus 1 "open" "done" .null true, deleted 2 "done" (.string "b"),
          restatus 1 "done" "open" .null true] := by
  have ran : ((feed notes defn openNotes 5 "v1").run (loaded openNotes [note 1 "open" .null])
      [restatus 1 "open" "done" .null true, deleted 2 "done" (.string "b"),
        restatus 1 "done" "open" .null true]).isSome := by decide
  obtain ⟨v', ran⟩ := Option.isSome_iff_exists.1 ran
  have initial : (feed notes defn openNotes 5 "v1").init
      (loaded openNotes [note 1 "open" .null]) :=
    ⟨rfl, [note 1 "open" .null], by decide, rfl⟩
  refine ⟨by decide,
    ((events_alternate_iff (by decide) initial ?_ ran (by decide) (by decide)).2 ?_).1⟩
  · intro s member before after same
    simp only [List.mem_cons, List.not_mem_nil, or_false] at member
    rcases member with rfl | rfl | rfl <;> cases same <;> rfl
  · intro s member before old same isOld _
    simp only [List.mem_cons, List.not_mem_nil, or_false] at member
    rcases member with rfl | rfl | rfl <;> cases same
    cases isOld
    decide

/-- The delete of a note with a body is logged in the shape of the notes without one. -/
theorem deleted_ghost_blank :
    parseWhere .ascii (.ofString "body IS NULL") [] = .ok blank ∧
      ((feed notes defn blank 5 "v1").run (loaded blank [note 1 "open" .null])
        [deleted 2 "done" (.string "b")]).map
        (fun v => v.inst.log.events.map fun ev => (ev.op, ev.row)) =
        some [(.insert, note 1 "open" .null), (.delete, keyOnly 2)] ∧
      ¬ (feed notes defn blank 5 "v1").Along View.Alternates (loaded blank [note 1 "open" .null])
        [deleted 2 "done" (.string "b")] := by
  refine ⟨by decide +kernel, by decide, fun along => ?_⟩
  have replayed : ((feed notes defn blank 5 "v1").run (loaded blank [note 1 "open" .null])
      [deleted 2 "done" (.string "b")]).map
      (fun v => presence.run false (opsOf notes [some (.int64 2)] v.inst.log.events)) =
      some none := by decide
  obtain ⟨v', ran, refused⟩ := Option.map_eq_some_iff.1 replayed
  obtain ⟨inShape, accepted⟩ := along.last ran [some (.int64 2)]
  cases refused.symm.trans accepted

end Notes

namespace Members

def admitted : List Row := [member "a|b" "c", member "a" "b|c"]

theorem key_ne_nil : ["org", "name"] ≠ [] := List.cons_ne_nil _ _

def relation : Relation where
  columns := {"org", "name"}
  primaryKey := ["org", "name"]
  admits row := admitted.contains row
  complete row held := by
    have each : ∀ r ∈ admitted, r.keys = {"org", "name"} := by decide
    exact each row (List.contains_iff_mem.1 held)
  key_columns := by decide
  key_nonempty := key_ne_nil

/-- `name = 'c'` -/
def namedC : Filter := ⟨[{ column := "name", op := .eq, value := .string "c" }]⟩

/-- The member outside the shape of those named c, whose cache key is that of the other. -/
def removed : Shipment relation members 5 "v1" where
  op := .delete (member "a" "b|c")
  change := { change .delete (some (member "a" "b|c")) none with
    relationFingerprint := "v1", commitLSN := 10 }
  ships := by
    refine ⟨rfl, _, rfl, fun col => ?_⟩
    by_cases org : col = "org" <;> by_cases name : col = "name" <;>
      simp [relation, member, KeyMap.lookup_ofList_cons, KeyMap.lookup_ofList_nil, org, name]
  mine := rfl
  later := by decide
  stamped := rfl

/-- Where a cache key is shared, a delete outside the shape is logged that is no ghost. -/
example : namedC.match (some (member "a" "b|c")) = false ∧
    ((feed relation members namedC 5 "v1").step
      { table := ⟨{member "a|b" "c", member "a" "b|c"}, by decide, by decide⟩
        inst := ((Instance.start members namedC).loadSnapshot 5 [some (member "a|b" "c")]).1 }
      removed).map (fun v => v.emitted.map fun ev => (ev.op, ev.row)) =
      some [(.delete, member "a|b" "c")] := by
  decide +kernel

end Members

end Tether.Shape
