/-
# Tether.Lib.Cursor — a reader that follows a numbered log

An append-only log gives its rows increasing numbers, possibly with gaps.  A reader
keeps the number of the last row it handled, reads the rows past it in batches and
handles them one at a time; a batch may be dropped before its end.

`done` is a ghost, the rows handled so far.  The fields say that the reader has
handled exactly the rows up to its number: a prefix of the log, in order and each
once.  Every operation is the proof that it keeps this.
-/
import Mathlib.Data.List.Infix

namespace Tether.Lib

set_option autoImplicit false

structure Cursor (α : Type) where
  rows : List (Nat × α) := []
  nextID : Nat := 1
  lastID : Nat := 0
  batch : List (Nat × α) := []
  done : List (Nat × α) := []
  below : ∀ r ∈ rows, r.1 < nextID
  started : lastID < nextID
  split : ∃ rest, rows = done ++ rest ∧ (∀ r ∈ done, r.1 ≤ lastID) ∧ (∀ r ∈ rest, lastID < r.1) ∧
    rest.Pairwise (fun a b => a.1 < b.1) ∧ batch <+: rest

namespace Cursor

variable {α : Type}

def empty : Cursor α where
  below := by simp
  started := by decide
  split := ⟨[], by simp, by simp, by simp, List.Pairwise.nil, List.prefix_refl _⟩

/-- A reader that has handled nothing of a log that is already there. -/
def ofRows (rows : List (Nat × α)) (nextID : Nat) (below : ∀ r ∈ rows, r.1 < nextID)
    (started : 0 < nextID) (ordered : rows.Pairwise fun a b => a.1 < b.1)
    (positive : ∀ r ∈ rows, 0 < r.1) : Cursor α where
  rows := rows
  nextID := nextID
  below := below
  started := started
  split := ⟨rows, rfl, by simp, positive, ordered, List.nil_prefix⟩

/-- Number `items` from `start` on. -/
def number (start : Nat) : List α → List (Nat × α)
  | [] => []
  | item :: items => (start, item) :: number (start + 1) items

theorem number_bounds {start : Nat} {items : List α} {r : Nat × α}
    (member : r ∈ number start items) : start ≤ r.1 ∧ r.1 < start + items.length := by
  induction items generalizing start with
  | nil => simp [number] at member
  | cons item items ih =>
      rcases List.mem_cons.1 member with rfl | later
      · simp
      · have := ih later
        simp only [List.length_cons]
        omega

theorem number_pairwise (start : Nat) (items : List α) :
    (number start items).Pairwise fun a b => a.1 < b.1 := by
  induction items generalizing start with
  | nil => exact List.Pairwise.nil
  | cons item items ih =>
      refine List.pairwise_cons.2 ⟨fun r member => ?_, ih (start + 1)⟩
      have := (number_bounds member).1
      dsimp only
      omega

@[simp] theorem number_items (start : Nat) (items : List α) :
    (number start items).map Prod.snd = items := by
  induction items generalizing start with
  | nil => rfl
  | cons item items ih => simp [number, ih]

/-- Append rows, skipping `gap` numbers. -/
def append (c : Cursor α) (gap : Nat) (items : List α) : Cursor α where
  rows := c.rows ++ number (c.nextID + gap) items
  nextID := c.nextID + gap + items.length
  lastID := c.lastID
  batch := c.batch
  done := c.done
  below := by
    intro r member
    rcases List.mem_append.1 member with old | new
    · have := c.below r old
      omega
    · exact (number_bounds new).2
  started := by
    have := c.started
    omega
  split := by
    obtain ⟨rest, rows, handled, ahead, ordered, reading⟩ := c.split
    refine ⟨rest ++ number (c.nextID + gap) items, ?_, handled, ?_, ?_, ?_⟩
    · rw [rows, List.append_assoc]
    · intro r member
      rcases List.mem_append.1 member with old | new
      · exact ahead r old
      · have := (number_bounds new).1
        have := c.started
        omega
    · refine List.pairwise_append.2 ⟨ordered, number_pairwise _ _, fun a old b new => ?_⟩
      have := c.below a (rows ▸ List.mem_append_right _ old)
      have := (number_bounds new).1
      omega
    · exact reading.trans (List.prefix_append _ _)

/-- Read a new batch: the rows past `lastID`, in order. -/
def read (c : Cursor α) : Cursor α :=
  { c with
    batch := c.rows.filter fun r => c.lastID < r.1
    split := by
      obtain ⟨rest, rows, handled, ahead, ordered, -⟩ := c.split
      refine ⟨rest, rows, handled, ahead, ordered, ?_⟩
      have before : c.done.filter (fun r => c.lastID < r.1) = [] :=
        List.filter_eq_nil_iff.2 fun r member => by simpa using handled r member
      have after : rest.filter (fun r => c.lastID < r.1) = rest :=
        List.filter_eq_self.2 fun r member => by simpa using ahead r member
      rw [rows, List.filter_append, before, after, List.nil_append] }

/-- Give up on the rest of the batch. -/
def abort (c : Cursor α) : Cursor α :=
  { c with
    batch := []
    split := by
      obtain ⟨rest, rows, handled, ahead, ordered, -⟩ := c.split
      exact ⟨rest, rows, handled, ahead, ordered, List.nil_prefix⟩ }

/-- Move past every row there is, to number `last`. -/
def skip (c : Cursor α) (last : Nat) (all : ∀ r ∈ c.rows, r.1 ≤ last) (started : last < c.nextID) :
    Cursor α where
  rows := c.rows
  nextID := c.nextID
  lastID := last
  batch := []
  done := c.rows
  below := c.below
  started := started
  split := ⟨[], by simp, all, by simp, List.Pairwise.nil, List.prefix_refl _⟩

/-- Move past `row`, the first of the batch. -/
def advance (c : Cursor α) (row : Nat × α) (later : List (Nat × α))
    (reading : c.batch = row :: later) : Cursor α where
  rows := c.rows
  nextID := c.nextID
  lastID := row.1
  batch := later
  done := c.done ++ [row]
  below := c.below
  started := by
    obtain ⟨rest, rows, -, -, -, batch⟩ := c.split
    refine c.below row (rows ▸ List.mem_append_right _ (batch.subset ?_))
    rw [reading]
    exact List.mem_cons_self
  split := by
    obtain ⟨rest, rows, handled, ahead, ordered, batch⟩ := c.split
    obtain ⟨tail, rfl⟩ := batch
    rw [reading] at rows ahead ordered
    obtain ⟨above, ordered'⟩ := List.pairwise_cons.1 ordered
    refine ⟨later ++ tail, by simp [rows], ?_, above, ordered', List.prefix_append _ _⟩
    intro r member
    rcases List.mem_append.1 member with old | new
    · exact (handled r old).trans (ahead row List.mem_cons_self).le
    · cases List.mem_singleton.1 new
      exact le_rfl

/-- The next row of the batch and the reader past it. -/
def next (c : Cursor α) : Option (α × Cursor α) :=
  match reading : c.batch with
  | [] => none
  | row :: later => some (row.2, c.advance row later reading)

/-- What has been handled so far. -/
def handled (c : Cursor α) : List α := c.done.map Prod.snd

/-- What the log holds. -/
def items (c : Cursor α) : List α := c.rows.map Prod.snd

/-- **No gap, no repetition.** -/
theorem handled_isPrefix_items (c : Cursor α) : c.handled <+: c.items := by
  obtain ⟨rest, rows, -⟩ := c.split
  simp only [handled, items, rows, List.map_append]
  exact List.prefix_append _ _

/-- The rows handled are those numbered up to `lastID`. -/
theorem done_eq_filter (c : Cursor α) : c.done = c.rows.filter fun r => r.1 ≤ c.lastID := by
  obtain ⟨rest, rows, handled, ahead, -⟩ := c.split
  have before : c.done.filter (fun r => r.1 ≤ c.lastID) = c.done :=
    List.filter_eq_self.2 fun r member => by simpa using handled r member
  have after : rest.filter (fun r => r.1 ≤ c.lastID) = [] :=
    List.filter_eq_nil_iff.2 fun r member => by simpa using ahead r member
  rw [rows, List.filter_append, before, after, List.append_nil]

/-- The rows not handled are those past `lastID`. -/
theorem done_append_ahead (c : Cursor α) :
    c.done ++ c.rows.filter (fun r => c.lastID < r.1) = c.rows := by
  obtain ⟨rest, rows, handled, ahead, -⟩ := c.split
  have before : c.done.filter (fun r => c.lastID < r.1) = [] :=
    List.filter_eq_nil_iff.2 fun r member => by simpa using handled r member
  have after : rest.filter (fun r => c.lastID < r.1) = rest :=
    List.filter_eq_self.2 fun r member => by simpa using ahead r member
  rw [rows, List.filter_append, before, after, List.nil_append]

@[simp] theorem append_items (c : Cursor α) (gap : Nat) (new : List α) :
    (c.append gap new).items = c.items ++ new := by
  simp [append, items]

@[simp] theorem append_handled (c : Cursor α) (gap : Nat) (new : List α) :
    (c.append gap new).handled = c.handled := rfl

theorem next_spec {c c' : Cursor α} {item : α} (stepped : c.next = some (item, c')) :
    c.batch.head?.map Prod.snd = some item ∧ c'.handled = c.handled ++ [item] ∧
      c'.items = c.items := by
  unfold next at stepped
  split at stepped
  · cases stepped
  · rename_i row later reading
    cases stepped
    refine ⟨by simp [reading], ?_, rfl⟩
    simp [handled, advance]

end Cursor

end Tether.Lib
