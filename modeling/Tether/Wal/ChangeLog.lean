/-
# Tether.Wal.ChangeLog — rows as `change_log` stores them

`tether.change_log` and `tether.checkpoint`, the tables that `persist` writes and fan-out
reads.  A row is stored as the JSON of its columns (`Tether.Wal.Json`).
-/
import Tether.Wal.Json

namespace Tether.Wal

open Tether.Lib

set_option autoImplicit false

def Op.text : Op → String
  | .insert => "insert"
  | .update => "update"
  | .delete => "delete"
  | .unknown text => text

/-- The columns of `change_log` that hold the change itself; a nil row is SQL NULL. -/
structure StoredChange where
  schema : String
  table : String
  op : String
  fingerprint : String
  old : Option (KeyMap String Json)
  new : Option (KeyMap String Json)
  deriving DecidableEq

/-- What `persist` writes for a change; `none` when a row cannot be marshalled. -/
def Change.store (exotic : Value → Option Json) (ch : Change) : Option StoredChange := do
  let old ← ch.old.elim (some none) fun row => (row.marshal exotic).map some
  let new ← ch.new.elim (some none) fun row => (row.marshal exotic).map some
  return ⟨ch.schema, ch.table, ch.op.text, ch.relationFingerprint, old, new⟩

structure LogEntry where
  lsn : LSN
  xid : Nat
  seq : Nat
  change : StoredChange
  deriving DecidableEq

/-- The columns under the UNIQUE constraint, for one `consumer_id`. -/
def LogEntry.key (e : LogEntry) : LSN × Nat := (e.lsn, e.seq)

structure LogRow extends LogEntry where
  id : Nat
  deriving DecidableEq

/-- `tether.change_log` and `tether.checkpoint` for one `consumer_id`: rows in the
order of their ids, which is the order of insertion. -/
structure Database where
  rows : List LogRow
  nextID : Nat
  checkpoint : Option LSN
  ordered : rows.Pairwise fun r r' => r.id < r'.id
  below : ∀ r ∈ rows, r.id < nextID

namespace Database

def empty : Database where
  rows := []
  nextID := 1
  checkpoint := none
  ordered := List.Pairwise.nil
  below := by simp

/-- What is stored, without the ids. -/
def entries (db : Database) : List LogEntry := db.rows.map LogRow.toLogEntry

def insert (db : Database) (e : LogEntry) : Database where
  rows := db.rows ++ [⟨e, db.nextID⟩]
  nextID := db.nextID + 1
  checkpoint := db.checkpoint
  ordered := by
    refine List.pairwise_append.2 ⟨db.ordered, List.pairwise_singleton _ _, ?_⟩
    intro r member r' new
    cases List.mem_singleton.1 new
    exact db.below r member
  below := by
    intro r member
    rcases List.mem_append.1 member with old | new
    · exact (db.below r old).trans (Nat.lt_succ_self _)
    · cases List.mem_singleton.1 new
      exact Nat.lt_succ_self _

/-- A row that conflicts is dropped, but its id is used up. -/
def skip (db : Database) : Database :=
  { db with
    nextID := db.nextID + 1
    below := fun r member => (db.below r member).trans (Nat.lt_succ_self _) }

/-- Ids drawn by a transaction that was rolled back. -/
def burn (db : Database) (ids : Nat) : Database :=
  { db with
    nextID := db.nextID + ids
    below := fun r member => (db.below r member).trans_le (Nat.le_add_right _ _) }

/-- `INSERT … ON CONFLICT (consumer_id, lsn, seq) DO NOTHING`. -/
def insertRow (db : Database) (e : LogEntry) : Database :=
  if e.key ∈ db.entries.map LogEntry.key then db.skip else db.insert e

/-- `COALESCE(MAX(id), 0)`. -/
def maxID (db : Database) : Nat := (db.rows.map LogRow.id).foldr max 0

end Database

/-- The rows `persist` asks for, numbered from `seq` on. -/
def logEntries (lsn : LSN) (xid : Nat) : Nat → List StoredChange → List LogEntry
  | _, [] => []
  | seq, change :: changes => ⟨lsn, xid, seq, change⟩ :: logEntries lsn xid (seq + 1) changes

namespace Database

/-- The transaction of `persist`: the rows one by one, then the checkpoint. -/
def persist (db : Database) (lsn : LSN) (xid : Nat) (changes : List StoredChange) : Database :=
  { (logEntries lsn xid 0 changes).foldl insertRow db with checkpoint := some lsn }

@[simp]
theorem entries_insert (db : Database) (e : LogEntry) :
    (db.insert e).entries = db.entries ++ [e] := by
  simp [entries, insert]

@[simp]
theorem entries_skip (db : Database) : db.skip.entries = db.entries := rfl

/-- Of rows with distinct keys those are stored whose key is new. -/
theorem entries_foldl (db : Database) (es : List LogEntry)
    (distinct : (es.map LogEntry.key).Nodup) :
    (es.foldl insertRow db).entries =
      db.entries ++ es.filter fun e => e.key ∉ db.entries.map LogEntry.key := by
  induction es generalizing db with
  | nil => simp
  | cons e es ih =>
      obtain ⟨first, rest⟩ := List.nodup_cons.1 distinct
      rw [List.foldl_cons, ih (db.insertRow e) rest, List.filter_cons]
      by_cases known : e.key ∈ db.entries.map LogEntry.key
      · have skipped : db.insertRow e = db.skip := if_pos known
        rw [skipped, entries_skip, if_neg (by simpa using known)]
      · have inserted : db.insertRow e = db.insert e := if_neg known
        have others : ∀ e' ∈ es, (decide (e'.key ∉ (db.insert e).entries.map LogEntry.key)) =
            decide (e'.key ∉ db.entries.map LogEntry.key) := by
          intro e' member
          have apart : e'.key ≠ e.key := fun same => first (same ▸ List.mem_map_of_mem member)
          simp [apart]
        rw [inserted, List.filter_congr others, entries_insert, if_pos (by simpa using known),
          List.append_assoc, List.singleton_append]

theorem le_maxID (db : Database) {r : LogRow} (member : r ∈ db.rows) : r.id ≤ db.maxID :=
  List.le_max_of_le (List.mem_map_of_mem member) le_rfl

theorem maxID_lt (db : Database) {n : Nat} (started : 0 < n) (below : ∀ r ∈ db.rows, r.id < n) :
    db.maxID < n := by
  have most : db.maxID ≤ n - 1 := by
    refine List.max_le_of_forall_le _ _ fun id member => ?_
    obtain ⟨r, stored, rfl⟩ := List.mem_map.1 member
    exact Nat.le_sub_one_of_lt (below r stored)
  omega

/-- New rows go to the end, with new ids. -/
theorem rows_foldl (db : Database) (es : List LogEntry) :
    ∃ new, (es.foldl insertRow db).rows = db.rows ++ new ∧ ∀ r ∈ new, db.nextID ≤ r.id := by
  induction es generalizing db with
  | nil => exact ⟨[], by simp, by simp⟩
  | cons e es ih =>
      obtain ⟨new, rows, ids⟩ := ih (db.insertRow e)
      rw [List.foldl_cons, rows]
      unfold insertRow at ids ⊢
      split
      · next known =>
          rw [if_pos known] at ids
          exact ⟨new, rfl, fun r member => (Nat.le_succ _).trans (ids r member)⟩
      · next unknown =>
          rw [if_neg unknown] at ids
          refine ⟨⟨e, db.nextID⟩ :: new, by simp [insert], fun r member => ?_⟩
          rcases List.mem_cons.1 member with rfl | later
          · exact le_rfl
          · exact (Nat.le_succ _).trans (ids r later)

theorem rows_persist (db : Database) (lsn : LSN) (xid : Nat) (changes : List StoredChange) :
    ∃ new, (db.persist lsn xid changes).rows = db.rows ++ new ∧ ∀ r ∈ new, db.nextID ≤ r.id :=
  db.rows_foldl _

end Database

theorem logEntries_lsn {lsn : LSN} {xid : Nat} {changes : List StoredChange} {seq : Nat}
    {e : LogEntry} (member : e ∈ logEntries lsn xid seq changes) : e.lsn = lsn ∧ seq ≤ e.seq := by
  induction changes generalizing seq with
  | nil => cases member
  | cons change changes ih =>
      rcases List.mem_cons.1 member with rfl | rest
      · exact ⟨rfl, le_refl _⟩
      · exact ⟨(ih rest).1, (Nat.le_succ _).trans (ih rest).2⟩

theorem nodup_logEntries (lsn : LSN) (xid : Nat) (changes : List StoredChange) (seq : Nat) :
    ((logEntries lsn xid seq changes).map LogEntry.key).Nodup := by
  induction changes generalizing seq with
  | nil => exact List.nodup_nil
  | cons change changes ih =>
      refine List.nodup_cons.2 ⟨fun again => ?_, ih (seq + 1)⟩
      obtain ⟨e, member, same⟩ := List.mem_map.1 again
      have later : seq + 1 ≤ e.seq := (logEntries_lsn member).2
      have number : e.seq = seq := congrArg Prod.snd same
      omega

theorem mem_logEntries {lsn : LSN} {xid : Nat} {changes : List StoredChange} {seq : Nat}
    {e : LogEntry} : e ∈ logEntries lsn xid seq changes ↔
      ∃ i ch, changes[i]? = some ch ∧ e = ⟨lsn, xid, seq + i, ch⟩ := by
  induction changes generalizing seq with
  | nil => simp [logEntries]
  | cons change changes ih =>
      rw [logEntries, List.mem_cons, ih]
      constructor
      · rintro (rfl | ⟨i, ch, here, rfl⟩)
        · exact ⟨0, change, rfl, rfl⟩
        · exact ⟨i + 1, ch, here, by rw [Nat.add_right_comm, Nat.add_assoc]⟩
      · rintro ⟨i, ch, here, rfl⟩
        cases i with
        | zero =>
            cases here
            exact Or.inl rfl
        | succ i => exact Or.inr ⟨i, ch, here, by rw [Nat.add_right_comm, Nat.add_assoc]⟩

theorem Database.entries_persist (db : Database) (lsn : LSN) (xid : Nat)
    (changes : List StoredChange) :
    (db.persist lsn xid changes).entries = db.entries ++
      (logEntries lsn xid 0 changes).filter fun e => e.key ∉ db.entries.map LogEntry.key :=
  db.entries_foldl _ (nodup_logEntries lsn xid changes 0)

/-- A transaction that is already in the log leaves the log as it is. -/
theorem Database.persist_known {db : Database} {lsn : LSN} {xid : Nat}
    {changes : List StoredChange} (known : ∀ e ∈ logEntries lsn xid 0 changes, e ∈ db.entries) :
    (db.persist lsn xid changes).entries = db.entries := by
  rw [entries_persist, List.filter_eq_nil_iff.2, List.append_nil]
  intro e member
  simpa using ⟨e, known e member, rfl⟩

/-- A transaction whose LSN is not in the log is appended whole. -/
theorem Database.persist_fresh {db : Database} {lsn : LSN} (xid : Nat)
    (changes : List StoredChange) (fresh : ∀ e ∈ db.entries, e.lsn ≠ lsn) :
    (db.persist lsn xid changes).entries = db.entries ++ logEntries lsn xid 0 changes := by
  rw [entries_persist, List.filter_eq_self.2]
  intro e member
  refine decide_eq_true fun again => ?_
  obtain ⟨old, stored, same⟩ := List.mem_map.1 again
  exact fresh old stored ((congrArg Prod.fst same).trans (logEntries_lsn member).1)

end Tether.Wal
