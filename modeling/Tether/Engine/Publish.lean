/-
# Tether.Engine.Publish — the tables that `Run` publishes

Before its loop `Run` collects the tables of the registered shapes and hands them to
`EnsurePublication`.  A table of several shapes is taken once; the loop knows a table by
the text `schema.table`, where a dot in a name looks like the one in between.

Every table is handed over exactly when no two tables have the same text
(`runTables_complete_iff`), so if no schema has a dot in its name.  Then a start that
succeeds leaves every shape's table in the publication (`publish_members`).
-/
import Tether.Lib.Utf8
import Tether.Shape.RowIdentity
import Tether.Wal.Publication

namespace Tether.Publish

open Lib Wal Shape

set_option autoImplicit false

variable {C : Type}

def tableRef (d : Definition C) : TableRef := ⟨.ofString d.schema, .ofString d.table⟩

/-- The key of the map `seen`. -/
def tableKey (t : TableRef) : GoString := t.schema ++ .ofString "." ++ t.name

def tablesFrom (seen : List GoString) : List (Definition C) → List TableRef
  | [] => []
  | d :: defs =>
      if seen.contains (tableKey (tableRef d)) then tablesFrom seen defs
      else tableRef d :: tablesFrom (tableKey (tableRef d) :: seen) defs

/-- The registry lists its definitions in any order. -/
def runTables (defs : List (Definition C)) : List TableRef := tablesFrom [] defs

inductive RunError (ε : Type) where
  | noShapes
  | publication (err : EnsureError ε)

def RunError.text {ε : Type} (error : ε → String) : RunError ε → String
  | .noShapes => "tether: no shapes registered"
  | .publication err => err.text error

/-- The part of `Run` between the schemas and the consumer. -/
def publish {σ ε : Type} (pool : Pool σ ε) (publication : GoString) (defs : List (Definition C))
    (db : σ) : Option (RunError ε) × σ :=
  if defs.isEmpty then (some .noShapes, db)
  else
    let result := ensurePublication (some pool) publication (runTables defs) db
    (result.1.map .publication, result.2)

/-! ## The loop -/

theorem exists_of_mem_tablesFrom {seen : List GoString} {defs : List (Definition C)} {t : TableRef}
    (member : t ∈ tablesFrom seen defs) : tableKey t ∉ seen ∧ ∃ d ∈ defs, tableRef d = t := by
  induction defs generalizing seen with
  | nil => cases member
  | cons d defs ih =>
      rw [tablesFrom] at member
      split at member
      · obtain ⟨new, d', later, same⟩ := ih member
        exact ⟨new, d', List.mem_cons_of_mem _ later, same⟩
      · next new =>
          rcases List.mem_cons.1 member with rfl | rest
          · exact ⟨by simpa using new, d, List.mem_cons_self, rfl⟩
          · obtain ⟨new', d', later, same⟩ := ih rest
            exact ⟨fun old => new' (List.mem_cons_of_mem _ old), d', List.mem_cons_of_mem _ later,
              same⟩

theorem tablesFrom_covers (seen : List GoString) {defs : List (Definition C)} {d : Definition C}
    (member : d ∈ defs) :
    tableKey (tableRef d) ∈ seen ∨
      ∃ t ∈ tablesFrom seen defs, tableKey t = tableKey (tableRef d) := by
  induction defs generalizing seen with
  | nil => cases member
  | cons d' defs ih =>
      rw [tablesFrom]
      rcases List.mem_cons.1 member with rfl | later
      · split
        · next old => exact Or.inl (List.contains_iff_mem.1 old)
        · exact Or.inr ⟨_, List.mem_cons_self, rfl⟩
      · split
        · exact ih seen later
        · rcases ih (tableKey (tableRef d') :: seen) later with old | ⟨t, inside, same⟩
          · rcases List.mem_cons.1 old with same | old
            · exact Or.inr ⟨_, List.mem_cons_self, same.symm⟩
            · exact Or.inl old
          · exact Or.inr ⟨t, List.mem_cons_of_mem _ inside, same⟩

theorem nodup_tablesFrom (seen : List GoString) (defs : List (Definition C)) :
    ((tablesFrom seen defs).map tableKey).Nodup := by
  induction defs generalizing seen with
  | nil => exact List.nodup_nil
  | cons d defs ih =>
      rw [tablesFrom]
      split
      · exact ih seen
      · rw [List.map_cons, List.nodup_cons]
        refine ⟨fun again => ?_, ih _⟩
        obtain ⟨t, member, same⟩ := List.mem_map.1 again
        refine (exists_of_mem_tablesFrom member).1 ?_
        rw [same]
        exact List.mem_cons_self

/-- **Which shapes' tables are handed over.**  All of them, exactly when tables with the same
text are the same table. -/
theorem runTables_complete_iff (defs : List (Definition C)) :
    (∀ d ∈ defs, tableRef d ∈ runTables defs) ↔
      ∀ d ∈ defs, ∀ d' ∈ defs, tableKey (tableRef d) = tableKey (tableRef d') →
        tableRef d = tableRef d' := by
  constructor
  · intro all d member d' member' same
    exact List.inj_on_of_nodup_map (nodup_tablesFrom [] defs) (all d member) (all d' member') same
  · intro apart d member
    rcases tablesFrom_covers [] member with old | ⟨t, inside, same⟩
    · cases old
    · obtain ⟨-, d', member', rfl⟩ := exists_of_mem_tablesFrom inside
      rw [apart d member d' member' same.symm]
      exact inside

/-- The first dot of the text is the one after the schema. -/
theorem tableKey_inj {t t' : TableRef} (plain : '.'.toUInt8 ∉ t.schema)
    (plain' : '.'.toUInt8 ∉ t'.schema) (same : tableKey t = tableKey t') : t = t' := by
  have dot : GoString.ofString "." = ['.'.toUInt8] := by decide
  rw [tableKey, tableKey, dot, List.append_assoc, List.append_assoc] at same
  obtain ⟨schema, name⟩ := Aligned.cancel (Or.inr ⟨plain, plain'⟩) same
  cases t
  cases t'
  cases schema
  cases name
  rfl

theorem dot_not_mem_schema {d : Definition C} (plain : '.' ∉ d.schema.toList) :
    '.'.toUInt8 ∉ (tableRef d).schema := by
  show _ ∉ GoString.encode d.schema.toList
  rw [show '.'.toUInt8 = UInt8.ofNat '.'.toNat from rfl]
  exact fun member => plain ((GoString.ascii_mem_encode (by decide)).1 member)

/-! ## The publication -/

theorem target_tableRef {d : Definition C} (registered : d.schema ≠ "") :
    (tableRef d).target = (.ofString d.schema, .ofString d.table) := by
  have nonempty : (tableRef d).schema ≠ [] := by
    intro empty
    have none : GoString.encode d.schema.toList = GoString.encode [] := empty
    exact registered (String.toList_inj.1 (GoString.encode_inj none))
  rw [TableRef.target, TableRef.schemaName, if_neg nonempty]
  rfl

/-- **A start that succeeds publishes every shape's table**, on any database that does what
the statements say, if the schemas have no dot in their names. -/
theorem publish_members {σ ε : Type} {pool : Pool σ ε} {member : σ → GoString → Table → Prop}
    (lawful : pool.Lawful member) {publication : GoString} {defs : List (Definition C)}
    (registered : ∀ d ∈ defs, d.schema ≠ "") (plain : ∀ d ∈ defs, '.' ∉ d.schema.toList) (db : σ)
    (started : (publish pool publication defs db).1 = none) :
    ∀ d ∈ defs, member (publish pool publication defs db).2 publication
      (.ofString d.schema, .ofString d.table) := by
  intro d here
  have shapes : defs.isEmpty = false := by
    cases defs with
    | nil => cases here
    | cons d' defs => rfl
  have complete := (runTables_complete_iff defs).2 fun d member d' member' same =>
    tableKey_inj (dot_not_mem_schema (plain d member)) (dot_not_mem_schema (plain d' member')) same
  have called : publish pool publication defs db =
      ((ensurePublication (some pool) publication (runTables defs) db).1.map .publication,
        (ensurePublication (some pool) publication (runTables defs) db).2) := by
    rw [publish, shapes]
    rfl
  rw [called] at started ⊢
  rw [← target_tableRef (registered d here)]
  exact ensurePublication_members lawful (Option.map_eq_none_iff.1 started) _ (complete d here)

namespace Boards

def shape (name table : String) : Definition Unit := ⟨name, "public", table, ["id"], none⟩

/-- Three shapes on two tables. -/
def shapes : List (Definition Unit) :=
  [shape "open" "tasks", shape "notes" "notes", shape "done" "tasks"]

def name : GoString := .ofString "tether"

/-- The publication is there from before, without the second table. -/
def catalog : Catalog where
  tables := Catalog.targets (runTables shapes)
  publications := (∅ : KeyMap GoString (Finset Table)).insert name
    {(.ofString "public", .ofString "tasks")}

theorem publish_members_boards :
    (GoString.ofString "public", GoString.ofString "notes") ∉ catalog.members name ∧
      ∀ d ∈ shapes, (GoString.ofString d.schema, GoString.ofString d.table) ∈
        (publish Catalog.pool name shapes catalog).2.members name := by
  have started : (publish Catalog.pool name shapes catalog).1.isNone = true := by
    decide +kernel
  have new : (GoString.ofString "public", GoString.ofString "notes") ∉ catalog.members name := by
    decide +kernel
  have registered : ∀ d ∈ shapes, d.schema ≠ "" := by decide
  have plain : ∀ d ∈ shapes, '.' ∉ d.schema.toList := by decide
  exact ⟨new, publish_members Catalog.pool_lawful registered plain catalog
    (Option.isNone_iff_eq_none.1 started)⟩

end Boards

-- Two shapes on different tables with one text: the second is not published.
example : runTables (C := Unit)
      [⟨"first", "a.b", "c", ["id"], none⟩, ⟨"second", "a", "b.c", ["id"], none⟩] =
    [⟨.ofString "a.b", .ofString "c"⟩] := by
  decide

end Tether.Publish
