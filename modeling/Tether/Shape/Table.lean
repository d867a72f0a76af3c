/-
# Tether.Shape.Table — the source table a shape is a view of

The abstract side of a shape: a table is a finite set of complete rows with a
unique primary key, changed by inserts, updates that keep the key, and deletes.
`Table` carries both facts as fields, so `step` has to prove them and a table that
breaks them cannot be built.

`Carries` is the contract with the decoder: which `wal.Change` values stand for a
row operation.  An update carries a complete new row (with the old one absent or
complete) or a complete old row and a new row that omits unchanged columns; a
delete carries the complete old row, or its key with every other column NULL.

`History` is a table history grouped into commits with increasing positions.
-/
import Tether.Lib.Machine
import Tether.Shape.Instance

namespace Tether.Shape

open Tether.Lib Tether.Wal

set_option autoImplicit false

/-- A relation: its columns, its primary key and the rows its column types admit. -/
structure Relation where
  columns : Finset String
  primaryKey : List String
  admits : Row → Bool
  complete : ∀ row, admits row = true → row.keys = columns
  key_columns : ∀ col ∈ primaryKey, col ∈ columns
  key_nonempty : primaryKey ≠ []

namespace Relation

/-- The primary key of a row. -/
def keyOf (rel : Relation) (row : Row) : List (Option Value) :=
  rel.primaryKey.map fun col => row.lookup col

/-- The cache key of a row, for rows that have one. -/
def keyText (rel : Relation) (row : Row) : String :=
  match pkKey rel.primaryKey row with
  | .ok key => key
  | .error _ => ""

/-- Distinct primary keys have distinct cache keys. -/
def DistinctKeys (rel : Relation) : Prop :=
  ∀ r r', rel.admits r = true → rel.admits r' = true →
    rel.keyText r = rel.keyText r' → rel.keyOf r = rel.keyOf r'

end Relation

structure Table (rel : Relation) where
  rows : Finset Row
  admitted : ∀ r ∈ rows, rel.admits r = true
  unique : ∀ r ∈ rows, ∀ r' ∈ rows, rel.keyOf r = rel.keyOf r' → r = r'

inductive RowOp where
  | insert (row : Row)
  | update (before after : Row)
  | delete (before : Row)

namespace Table

variable {rel : Relation}

def insert (t : Table rel) (row : Row) (ok : rel.admits row = true)
    (fresh : ∀ r ∈ t.rows, rel.keyOf r ≠ rel.keyOf row) : Table rel where
  rows := Insert.insert row t.rows
  admitted := by
    intro r member
    rcases Finset.mem_insert.1 member with rfl | old
    · exact ok
    · exact t.admitted r old
  unique := by
    intro r first r' second same
    rcases Finset.mem_insert.1 first with rfl | old <;>
      rcases Finset.mem_insert.1 second with rfl | old'
    · rfl
    · exact absurd same.symm (fresh r' old')
    · exact absurd same (fresh r old)
    · exact t.unique r old r' old' same

def delete (t : Table rel) (before : Row) : Table rel where
  rows := t.rows.erase before
  admitted r member := t.admitted r (Finset.mem_of_mem_erase member)
  unique r first r' second := t.unique r (Finset.mem_of_mem_erase first) r'
    (Finset.mem_of_mem_erase second)

theorem delete_fresh (t : Table rel) {before after : Row} (present : before ∈ t.rows)
    (same : rel.keyOf after = rel.keyOf before) :
    ∀ r ∈ (t.delete before).rows, rel.keyOf r ≠ rel.keyOf after := by
  intro r member clash
  obtain ⟨apart, old⟩ := Finset.mem_erase.1 member
  exact apart (t.unique r old before present (clash.trans same))

/-- An update that keeps the key is a delete and an insert. -/
def update (t : Table rel) (before after : Row) (present : before ∈ t.rows)
    (ok : rel.admits after = true) (same : rel.keyOf after = rel.keyOf before) : Table rel :=
  (t.delete before).insert after ok (t.delete_fresh present same)

def step (t : Table rel) : RowOp → Option (Table rel)
  | .insert row =>
      if h : rel.admits row = true ∧ ∀ r ∈ t.rows, rel.keyOf r ≠ rel.keyOf row then
        some (t.insert row h.1 h.2)
      else none
  | .update before after =>
      if h : before ∈ t.rows ∧ rel.admits after = true ∧ rel.keyOf after = rel.keyOf before then
        some (t.update before after h.1 h.2.1 h.2.2)
      else none
  | .delete before => if before ∈ t.rows then some (t.delete before) else none

end Table

/-- A table as a transition system; every table is an initial one. -/
def Relation.machine (rel : Relation) : Machine (Table rel) RowOp where
  init _ := True
  step := Table.step

/-- `part` is `after` without some columns on which `before` agrees with it. -/
def OmitsUnchanged (part before after : Row) : Prop :=
  ∀ col, part.lookup col = after.lookup col ∨
    (part.lookup col = none ∧ after.lookup col = before.lookup col)

/-- The key columns of `before`, every other column NULL. -/
def KeyOnly (rel : Relation) (before row : Row) : Prop :=
  ∀ col, row.lookup col =
    if col ∈ rel.primaryKey then before.lookup col
    else if col ∈ rel.columns then some .null else none

/-- The change `ch` stands for the row operation. -/
def Carries (rel : Relation) : RowOp → Change → Prop
  | .insert row, ch => ch.op = .insert ∧ ch.new = some row
  | .update before after, ch =>
      ch.op = .update ∧
        ((ch.new = some after ∧ (ch.old = none ∨ ch.old = some before)) ∨
          (ch.old = some before ∧ ∃ part, ch.new = some part ∧ OmitsUnchanged part before after))
  | .delete before, ch =>
      ch.op = .delete ∧ ∃ old, ch.old = some old ∧ (old = before ∨ KeyOnly rel before old)

/-- A committed transaction: its row operations with the changes decoded for them. -/
structure Commit where
  lsn : LSN
  changes : List (RowOp × Change)

/-- A table history for the shape `d`. -/
structure History {C : Type} (rel : Relation) (d : Definition C) where
  initial : Table rel
  commits : List Commit
  final : Table rel
  fingerprint : String
  keyed : d.withDefaults.primaryKey = rel.primaryKey
  increasing : commits.Pairwise fun a b => a.lsn < b.lsn
  nonzero : ∀ c ∈ commits, c.lsn ≠ 0
  stamped : ∀ c ∈ commits, ∀ p ∈ c.changes,
    p.2.commitLSN = c.lsn ∧ p.2.relationFingerprint = fingerprint ∧
      tableMatch d.withDefaults p.2 = true ∧ Carries rel p.1 p.2
  runs : rel.machine.run initial (commits.flatMap fun c => c.changes.map Prod.fst) = some final

namespace History

variable {C : Type} {rel : Relation} {d : Definition C}

/-- Every change of the history, in order. -/
def changes (h : History rel d) : List Change := h.commits.flatMap fun c => c.changes.map Prod.snd

/-- The table after the commits up to `lsn`. -/
def stateAt (h : History rel d) (lsn : LSN) : Option (Table rel) :=
  rel.machine.run h.initial
    ((h.commits.filter fun c => c.lsn ≤ lsn).flatMap fun c => c.changes.map Prod.fst)

end History

end Tether.Shape
