/-
# Tether.Shape.Log — the append-only log of one shape

`internal/shape/log.go`.  A log numbers its events `1, 2, 3, …` and can be halted
for good.  The numbering is a field of the structure (`numbered`, `next_eq`), so
`append` and `halt` are the proof that every log the engine builds has it.

`after` is the resume query: `none` stands for the source's `ok = false`, the
client has to take a new snapshot.  It refuses an offset only while the log is empty:
a log that has an event answers every offset, one it never reached included
(`after_eq_filter`, `resumes_iff`).
-/
import Tether.Wal.Change

namespace Tether.Shape

open Tether.Lib Tether.Wal

set_option autoImplicit false

/-- The errors of `internal/shape`; `bind` carries the error of a host's binder. -/
inductive ShapeError where
  | bindNil
  | bind (text : String)
  | schemaDrift (shape : String)
  | halted (cause : ShapeError)
  | unknownOp (op : String)
  | primaryKeyNotConfigured
  | missingPrimaryKey (column : String)
  deriving DecidableEq

/-- `err.Error()`. -/
def ShapeError.text : ShapeError → String
  | .bindNil => "shape: bind is nil"
  | .bind text => text
  | .schemaDrift shape => "shape: schema drift: shape " ++ quote shape
  | .halted cause => "shape: halted: " ++ cause.text
  | .unknownOp op => "shape: unknown wal op " ++ quote op
  | .primaryKeyNotConfigured => "shape: primary key not configured"
  | .missingPrimaryKey column => "shape: missing primary key column " ++ quote column

inductive EventOp where
  | insert
  | update
  | delete
  deriving DecidableEq

/-- One append to a shape log: the new row, or the old one for a delete. -/
structure Event where
  offset : Int
  op : EventOp
  table : String
  row : Row
  deriving DecidableEq

structure Log where
  next : Int
  events : List Event
  halted : Option ShapeError
  numbered : ∀ i (h : i < events.length), (events[i]).offset = i + 1
  next_eq : next = events.length + 1

namespace Log

/-- `NewLog`: the first offset is 1. -/
def new : Log where
  next := 1
  events := []
  halted := none
  numbered := by simp
  next_eq := by simp

/-- The first halt wins. -/
def halt (l : Log) (err : ShapeError) : Log :=
  { l with halted := some (l.halted.getD err) }

/-- Append without looking at `halted`. -/
def push (l : Log) (op : EventOp) (table : String) (row : Row) : Log where
  next := l.next + 1
  events := l.events ++ [⟨l.next, op, table, row⟩]
  halted := l.halted
  numbered := by
    intro i h
    by_cases old : i < l.events.length
    · rw [List.getElem_append_left old]
      exact l.numbered i old
    · have last : i = l.events.length := by
        simp only [List.length_append, List.length_singleton] at h
        omega
      subst last
      simp [l.next_eq]
  next_eq := by simp [l.next_eq]

def append (l : Log) (op : EventOp) (table : String) (row : Row) :
    Except ShapeError (Event × Log) :=
  match l.halted with
  | some err => .error err
  | none => .ok (⟨l.next, op, table, row⟩, l.push op table row)

/-- Events past `offset`, unless the log does not reach back to it. -/
def after (l : Log) (offset : Int) : Option (List Event) :=
  match l.events with
  | [] => if offset = 0 then some [] else none
  | first :: _ =>
      if 0 < offset ∧ offset < first.offset - 1 then none
      else some (l.events.filter fun ev => offset < ev.offset)

def lastOffset (l : Log) : Int :=
  match l.events.getLast? with
  | none => 0
  | some ev => ev.offset

@[simp] theorem halt_events (l : Log) (err : ShapeError) : (l.halt err).events = l.events := rfl

@[simp] theorem push_events (l : Log) (op : EventOp) (table : String) (row : Row) :
    (l.push op table row).events = l.events ++ [⟨l.next, op, table, row⟩] := rfl

@[simp] theorem push_halted (l : Log) (op : EventOp) (table : String) (row : Row) :
    (l.push op table row).halted = l.halted := rfl

theorem lastOffset_eq (l : Log) : l.lastOffset = l.events.length := by
  unfold lastOffset
  cases last : l.events.getLast? with
  | none => simp [List.getLast?_eq_none_iff.1 last]
  | some ev =>
      rw [List.getLast?_eq_getElem?] at last
      obtain ⟨bound, rfl⟩ := List.getElem?_eq_some_iff.1 last
      show (l.events[l.events.length - 1]).offset = _
      rw [l.numbered _ bound]
      omega

theorem offsets_eq (l : Log) :
    l.events.map Event.offset = (List.range l.events.length).map fun i : Nat => (i : Int) + 1 := by
  apply List.ext_getElem
  · simp
  · intro i h _
    simp only [List.getElem_map, List.getElem_range]
    exact l.numbered i (by simpa using h)

theorem mem_of_after {l : Log} {offset : Int} {events : List Event}
    (after : l.after offset = some events) {ev : Event} (member : ev ∈ events) :
    ev ∈ l.events := by
  unfold Log.after at after
  split at after
  · split_ifs at after
    cases after
    cases member
  · split_ifs at after
    cases after
    exact List.mem_of_mem_filter member

/-- The first event has offset 1, so no offset is too old. -/
theorem after_eq_filter (l : Log) (nonempty : l.events ≠ []) (o : Int) :
    l.after o = some (l.events.filter fun ev => o < ev.offset) := by
  unfold after
  cases events : l.events with
  | nil => exact absurd events nonempty
  | cons first rest =>
      have head : first.offset = 1 := by
        have := l.numbered 0 (by simp [events])
        simpa [events] using this
      dsimp only
      rw [if_neg (by omega)]

/-- A resume from an offset of the log gets everything past it. -/
theorem after_eq_drop (l : Log) {o : Int} (nonneg : 0 ≤ o) (reached : o ≤ l.lastOffset) :
    l.after o = some (l.events.drop o.toNat) := by
  rw [lastOffset_eq] at reached
  have split : l.events.filter (fun ev => o < ev.offset) = l.events.drop o.toNat := by
    have early : (l.events.take o.toNat).filter (fun ev => o < ev.offset) = [] := by
      refine List.filter_eq_nil_iff.2 fun ev member => ?_
      obtain ⟨i, bound, rfl⟩ := List.getElem_of_mem member
      simp only [List.length_take] at bound
      simp only [List.getElem_take, l.numbered i (by omega), decide_eq_true_eq]
      omega
    have late : (l.events.drop o.toNat).filter (fun ev => o < ev.offset) =
        l.events.drop o.toNat := by
      refine List.filter_eq_self.2 fun ev member => ?_
      obtain ⟨i, bound, rfl⟩ := List.getElem_of_mem member
      simp only [List.length_drop] at bound
      simp only [List.getElem_drop, l.numbered (o.toNat + i) (by omega), decide_eq_true_eq]
      omega
    calc l.events.filter (fun ev => o < ev.offset)
        = (l.events.take o.toNat ++ l.events.drop o.toNat).filter (fun ev => o < ev.offset) := by
          rw [List.take_append_drop]
      _ = l.events.drop o.toNat := by rw [List.filter_append, early, late, List.nil_append]
  by_cases empty : l.events = []
  · rw [empty] at reached
    have zero : o = 0 := le_antisymm (by simpa using reached) nonneg
    simp [after, empty, zero]
  · rw [l.after_eq_filter empty, split]

/-! ## The offsets that `After` answers -/

/-- A call on a log. -/
inductive Call where
  | append (op : EventOp) (table : String) (row : Row)
  | halt (err : ShapeError)

/-- The log after a call; a refused append leaves it as it is. -/
def call (l : Log) : Call → Log
  | .append op table row => ((l.append op table row).toOption.map Prod.snd).getD l
  | .halt err => l.halt err

/-- The log after a sequence of calls on a new one. -/
def ofCalls (calls : List Call) : Log := calls.foldl call new

/-- The log answers `o` exactly if it has reached `o`, and then with the events at
`o + 1`, `o + 2`, … up to its end. -/
def Resumes (l : Log) (o : Int) : Prop :=
  ((l.after o).isSome = true ↔ 0 ≤ o ∧ o ≤ l.lastOffset) ∧
    ∀ events ∈ l.after o, events <:+ l.events ∧
      events.map Event.offset =
        (List.range (l.lastOffset - o).toNat).map fun i : Nat => o + 1 + i

theorem offsets_drop (l : Log) {o : Int} (nonneg : 0 ≤ o) (reached : o ≤ l.lastOffset) :
    (l.events.drop o.toNat).map Event.offset =
      (List.range (l.lastOffset - o).toNat).map fun i : Nat => o + 1 + i := by
  rw [lastOffset_eq] at reached ⊢
  apply List.ext_getElem
  · simp only [List.length_map, List.length_drop, List.length_range]
    omega
  · intro i bound _
    simp only [List.length_map, List.length_drop] at bound
    simp only [List.getElem_map, List.getElem_drop, List.getElem_range,
      l.numbered (o.toNat + i) (by omega)]
    omega

/-- **Resume offsets, exactly.**  After any calls, `After` treats `o` as it should iff
the log is empty or has reached `o`. -/
theorem resumes_iff (calls : List Call) (o : Int) :
    (ofCalls calls).Resumes o ↔
      (ofCalls calls).events = [] ∨ 0 ≤ o ∧ o ≤ (ofCalls calls).lastOffset := by
  generalize ofCalls calls = l
  constructor
  · intro resumes
    by_cases empty : l.events = []
    · exact Or.inl empty
    · exact Or.inr (resumes.1.1 (by rw [l.after_eq_filter empty]; rfl))
  · intro reached
    by_cases inside : 0 ≤ o ∧ o ≤ l.lastOffset
    · rw [Resumes, l.after_eq_drop inside.1 inside.2]
      refine ⟨iff_of_true rfl inside, fun events member => ?_⟩
      obtain rfl := Option.mem_some_iff.1 member
      exact ⟨List.drop_suffix _ _, l.offsets_drop inside.1 inside.2⟩
    · have empty : l.events = [] := reached.resolve_right inside
      have nonzero : o ≠ 0 := by
        rintro rfl
        rw [lastOffset_eq, empty] at inside
        exact inside ⟨le_refl _, le_refl _⟩
      have refused : l.after o = none := by
        unfold after
        rw [empty]
        exact if_neg nonzero
      rw [Resumes, refused]
      refine ⟨iff_of_false Bool.false_ne_true inside, fun events absent => ?_⟩
      exact absurd absent (Option.not_mem_none _)

/-- One event in the log: a client that was at offset 5 of another log is told that it
has missed nothing, and offset -1 is answered with the whole log. -/
theorem after_not_reached :
    let l := ofCalls [.append .insert "todos" (KeyMap.ofList [("id", .string "1")])]
    l.lastOffset = 1 ∧ l.after 5 = some [] ∧ l.after (-1) = some l.events ∧
      ¬ l.Resumes 5 ∧ ¬ l.Resumes (-1) := by
  refine ⟨by decide, by decide, by decide, fun resumes => ?_, fun resumes => ?_⟩
  · exact absurd (resumes.1.1 (by decide)) (by decide)
  · exact absurd (resumes.1.1 (by decide)) (by decide)

end Log

end Tether.Shape
