/-
# Tether.Engine.Transactions — snapshots in the middle of a transaction

Fan-out has no transaction boundaries: it applies the rows of `change_log` to a stream one
by one.  A subscription to a stream that is already there reads `LastOffset` and then
`Materialized`, at any time.

`Whole` says that the rows of every snapshot message are those of the stream after some
number of whole source transactions.  A subscription can cut in after every single change,
so that is safe where no transaction has two changes that reach the stream
(`whole_of_single`).
-/
import Tether.Engine.Subscribe

namespace Tether.Transactions

open Lib Wal Shape

set_option autoImplicit false

variable {C : Type}

/-- A stream, and the source transactions that fan-out will read, in their order; `exotic` is
what `json.Marshal` makes of the values that the model leaves open. -/
structure Setup (C : Type) where
  inst : Instance C
  txns : List (List Change)
  exotic : Value → Option Json

/-- Where the goroutine of a subscription is. -/
inductive Reader where
  | asked
  | offset (offset : Int)
  | rows (offset : Int) (rows : Multiset Row)
  /-- The snapshot message is in the buffer. -/
  | sent (offset : Int) (rows : Multiset Row)
  /-- It cannot be marshalled, or `Enqueue` has refused it. -/
  | failed
  deriving DecidableEq

/-- `half` is the change that `Apply` has written to the cache and not yet to the log. -/
structure State (C : Type) where
  inst : Instance C
  todo : List Change
  half : Option Move := none
  readers : List Reader := []

inductive Ev where
  | fanOut
  | subscribe
  | read (j : Nat)
  | refuse (j : Nat)

def fanOutStep (s : State C) : Option (State C) :=
  match s.half, s.todo with
  | some m, _ => some { s with inst := (s.inst.appendLog m).1, half := none }
  | none, [] => none
  | none, ch :: todo =>
      match s.inst.applyBegin ch with
      | (inst, .ok (some m)) => some { s with inst := inst, todo := todo, half := some m }
      | (inst, _) => some { s with inst := inst, todo := todo }

/-- The reuse path of `subscribeShape`. -/
def Reader.next (exotic : Value → Option Json) (inst : Instance C) : Reader → Option Reader
  | .asked => some (.offset inst.log.lastOffset)
  | .offset last => some (.rows last inst.materialized)
  | .rows last held =>
      some (if ∀ row ∈ held, row.marshals exotic = true then .sent last held else .failed)
  | .sent _ _ | .failed => none

def step (exotic : Value → Option Json) (s : State C) : Ev → Option (State C)
  | .fanOut => fanOutStep s
  | .subscribe => some { s with readers := s.readers ++ [.asked] }
  | .read j => do
      let r ← s.readers[j]?
      let r' ← r.next exotic s.inst
      some { s with readers := s.readers.set j r' }
  | .refuse j =>
      match s.readers[j]? with
      | some (.rows _ _) => some { s with readers := s.readers.set j .failed }
      | _ => none

def Setup.start (u : Setup C) : State C := { inst := u.inst, todo := u.txns.flatten }

def machine (u : Setup C) : Machine (State C) Ev := ⟨(· = u.start), step u.exotic⟩

/-- The stream once `changes` have been applied. -/
def after (inst : Instance C) (changes : List Change) : Instance C :=
  changes.foldl (fun inst ch => (inst.apply ch).1) inst

/-- **Whole transactions.** -/
def Whole (u : Setup C) (s : State C) : Prop :=
  ∀ offset rows, .sent offset rows ∈ s.readers →
    ∃ k, rows = (after u.inst (u.txns.take k).flatten).materialized

/-- No transaction has two changes of the stream's table past its snapshot. -/
def Single (u : Setup C) : Prop := ∀ txn ∈ u.txns, (txn.filter u.inst.reaches).length ≤ 1

instance (u : Setup C) : Decidable (Single u) :=
  inferInstanceAs (Decidable (∀ txn ∈ u.txns, (txn.filter u.inst.reaches).length ≤ 1))

/-! ## Fan-out -/

theorem after_append (inst : Instance C) (changes changes' : List Change) :
    after inst (changes ++ changes') = after (after inst changes) changes' :=
  List.foldl_append

theorem after_take_succ (inst : Instance C) {changes todo : List Change} {ch : Change} {n : Nat}
    (next : changes.drop n = ch :: todo) :
    after inst (changes.take (n + 1)) = ((after inst (changes.take n)).apply ch).1 := by
  have split : changes.take (n + 1) = changes.take n ++ [ch] := by
    rw [List.take_add, next]
    rfl
  rw [split, after_append]
  rfl

theorem appendLog_cache (inst : Instance C) (m : Move) :
    (inst.appendLog m).1.cache = inst.cache := by
  unfold Instance.appendLog
  split <;> rfl

/-- The first `n` changes have been applied, the last of them perhaps only to the cache. -/
structure Reached (u : Setup C) (n : Nat) (s : State C) : Prop where
  todo : s.todo = u.txns.flatten.drop n
  cache : s.inst.cache = (after u.inst (u.txns.flatten.take n)).cache
  settled : s.half = none → s.inst = after u.inst (u.txns.flatten.take n)
  half : ∀ m, s.half = some m →
    (s.inst.appendLog m).1 = after u.inst (u.txns.flatten.take n)

theorem reached_fanOut {u : Setup C} {n : Nat} {s t : State C} (reached : Reached u n s)
    (stepped : fanOutStep s = some t) : t.readers = s.readers ∧ ∃ n', Reached u n' t := by
  cases half : s.half with
  | some m =>
      simp only [fanOutStep, half] at stepped
      cases stepped
      refine ⟨rfl, n, reached.todo, ?_, fun _ => reached.half m half, nofun⟩
      rw [appendLog_cache]
      exact reached.cache
  | none =>
      cases todo : s.todo with
      | nil => simp [fanOutStep, half, todo] at stepped
      | cons ch todo' =>
          have next : u.txns.flatten.drop n = ch :: todo' := reached.todo ▸ todo
          have later : u.txns.flatten.drop (n + 1) = todo' := by
            rw [← List.drop_drop, next]
            rfl
          have whole : after u.inst (u.txns.flatten.take (n + 1)) = (s.inst.apply ch).1 := by
            rw [after_take_succ _ next, ← reached.settled half]
          rw [Instance.apply_eq_begin] at whole
          simp only [fanOutStep, half, todo] at stepped
          rcases begun : s.inst.applyBegin ch with ⟨inst, err | (_ | m)⟩
          · rw [begun] at stepped whole
            cases stepped
            exact ⟨rfl, n + 1, later.symm, congrArg Instance.cache whole.symm,
              fun _ => whole.symm, nofun⟩
          · rw [begun] at stepped whole
            cases stepped
            exact ⟨rfl, n + 1, later.symm, congrArg Instance.cache whole.symm,
              fun _ => whole.symm, nofun⟩
          · rw [begun] at stepped whole
            cases stepped
            refine ⟨rfl, n + 1, later.symm, ?_, nofun, fun m' same => ?_⟩
            · rw [whole]
              exact (appendLog_cache _ _).symm
            · cases same
              exact whole.symm

/-! ## Subscriptions -/

/-- The rows a subscription has read, or sent. -/
def Reader.holds : Reader → Option (Multiset Row)
  | .rows _ held | .sent _ held => some held
  | .asked | .offset _ | .failed => none

/-- The rows of the stream after `n` changes. -/
def Setup.rowsAt (u : Setup C) (n : Nat) : Multiset Row :=
  (after u.inst (u.txns.flatten.take n)).materialized

/-- What the subscriptions have read are rows after some number of changes. -/
def Reads (u : Setup C) (readers : List Reader) : Prop :=
  ∀ r ∈ readers, ∀ held, r.holds = some held → ∃ n, held = u.rowsAt n

theorem reads_set {u : Setup C} {readers : List Reader} {j : Nat} {r : Reader}
    (reads : Reads u readers) (read : ∀ held, r.holds = some held → ∃ n, held = u.rowsAt n) :
    Reads u (readers.set j r) := by
  intro r' member
  rcases List.mem_or_eq_of_mem_set member with old | rfl
  · exact reads r' old
  · exact read

theorem reads_next {u : Setup C} {n : Nat} {s : State C} {j : Nat} {r r' : Reader}
    (reached : Reached u n s) (reads : Reads u s.readers) (found : s.readers[j]? = some r)
    (next : r.next u.exotic s.inst = some r') : Reads u (s.readers.set j r') := by
  cases r with
  | asked =>
      cases next
      exact reads_set reads nofun
  | offset last =>
      cases next
      refine reads_set reads fun held same => ⟨n, ?_⟩
      cases same
      exact congrArg KeyMap.values reached.cache
  | rows last held =>
      simp only [Reader.next, Option.some.injEq] at next
      split at next
      · subst next
        exact reads_set reads (reads (.rows last held) (List.mem_of_getElem? found))
      · subst next
        exact reads_set reads nofun
  | sent | failed => cases next

/-- **The invariant.** -/
structure Between (u : Setup C) (s : State C) : Prop where
  reached : ∃ n, Reached u n s
  reads : Reads u s.readers

theorem between_step {u : Setup C} {s t : State C} {e : Ev} (between : Between u s)
    (stepped : step u.exotic s e = some t) : Between u t := by
  obtain ⟨⟨n, reached⟩, reads⟩ := between
  -- the subscriptions leave the stream alone
  have beside : ∀ readers, Reads u readers → Between u { s with readers := readers } :=
    fun readers reads => ⟨⟨n, reached.todo, reached.cache, reached.settled, reached.half⟩, reads⟩
  cases e with
  | fanOut =>
      obtain ⟨readers, onward⟩ := reached_fanOut reached stepped
      exact ⟨onward, readers ▸ reads⟩
  | subscribe =>
      cases stepped
      refine beside _ fun r member held same => ?_
      rcases List.mem_append.1 member with old | new
      · exact reads r old held same
      · cases List.mem_singleton.1 new
        cases same
  | read j =>
      obtain ⟨r, found, rest⟩ := Option.bind_eq_some_iff.1 stepped
      obtain ⟨r', next, same⟩ := Option.bind_eq_some_iff.1 rest
      cases same
      exact beside _ (reads_next reached reads found next)
  | refuse j =>
      simp only [step] at stepped
      split at stepped
      · cases stepped
        exact beside _ (reads_set reads nofun)
      · cases stepped

theorem between_start (u : Setup C) : Between u u.start :=
  ⟨⟨0, rfl, rfl, fun _ => rfl, nofun⟩, nofun⟩

/-! ## Transactions with one change for the stream -/

theorem apply_reaches (inst : Instance C) (ch ch' : Change) :
    (inst.apply ch).1.reaches ch' = inst.reaches ch' := by
  have stepped := inst.apply_step ch
  generalize inst.apply ch = result at stepped ⊢
  obtain ⟨inst', outcome⟩ := result
  cases stepped <;> rfl

theorem apply_unreached {inst : Instance C} {ch : Change} (past : inst.reaches ch = false) :
    (inst.apply ch).1.cache = inst.cache := by
  have stepped := inst.apply_step ch
  generalize inst.apply ch = result at stepped ⊢
  obtain ⟨inst', outcome⟩ := result
  cases stepped with
  | halted | ignored | drifted | failed | silent => rfl
  | moved _ mine passes _ _ => simp [Instance.reaches, mine, passes] at past

theorem after_reaches (inst : Instance C) (changes : List Change) (ch : Change) :
    (after inst changes).reaches ch = inst.reaches ch := by
  induction changes generalizing inst with
  | nil => rfl
  | cons first changes ih => exact (ih _).trans (apply_reaches inst first ch)

theorem after_unreached {inst : Instance C} {changes : List Change}
    (past : changes.filter inst.reaches = []) : (after inst changes).cache = inst.cache := by
  induction changes generalizing inst with
  | nil => rfl
  | cons first changes ih =>
      rw [List.filter_eq_nil_iff] at past
      have here : inst.reaches first = false := by simpa using past first List.mem_cons_self
      have later : changes.filter (inst.apply first).1.reaches = [] := by
        refine List.filter_eq_nil_iff.2 fun ch member => ?_
        rw [apply_reaches]
        exact past ch (List.mem_cons_of_mem _ member)
      exact (ih later).trans (apply_unreached here)

/-- In the middle of such a transaction the stream is at its beginning or at its end. -/
theorem after_take {inst : Instance C} {txn : List Change}
    (one : (txn.filter inst.reaches).length ≤ 1) (n : Nat) :
    (after inst (txn.take n)).cache = inst.cache ∨
      (after inst (txn.take n)).cache = (after inst txn).cache := by
  have split : txn.filter inst.reaches =
      (txn.take n).filter inst.reaches ++ (txn.drop n).filter inst.reaches := by
    rw [← List.filter_append, List.take_append_drop]
  rw [split, List.length_append] at one
  by_cases none : (txn.take n).filter inst.reaches = []
  · exact .inl (after_unreached none)
  · have some : 0 < ((txn.take n).filter inst.reaches).length := List.length_pos_of_ne_nil none
    have rest : (txn.drop n).filter (after inst (txn.take n)).reaches = [] := by
      rw [List.filter_congr fun ch _ => after_reaches inst (txn.take n) ch]
      exact List.eq_nil_of_length_eq_zero (by omega)
    right
    calc (after inst (txn.take n)).cache
        = (after (after inst (txn.take n)) (txn.drop n)).cache := (after_unreached rest).symm
      _ = (after inst txn).cache := by rw [← after_append, List.take_append_drop]

theorem exists_whole {inst : Instance C} {txns : List (List Change)}
    (one : ∀ txn ∈ txns, (txn.filter inst.reaches).length ≤ 1) (n : Nat) :
    ∃ k, (after inst (txns.flatten.take n)).cache = (after inst (txns.take k).flatten).cache := by
  induction txns generalizing inst n with
  | nil => exact ⟨0, by simp⟩
  | cons txn txns ih =>
      rw [List.flatten_cons]
      rcases Nat.le_total n txn.length with inside | past
      · rw [List.take_append_of_le_length inside]
        rcases after_take (one txn List.mem_cons_self) n with start | finish
        · exact ⟨0, start⟩
        · exact ⟨1, by simpa using finish⟩
      · have later : ∀ txn' ∈ txns,
            (txn'.filter (after inst txn).reaches).length ≤ 1 := by
          intro txn' member
          rw [List.filter_congr fun ch _ => after_reaches inst txn ch]
          exact one txn' (List.mem_cons_of_mem _ member)
        obtain ⟨k, same⟩ := ih later (n - txn.length)
        refine ⟨k + 1, ?_⟩
        rw [List.take_append, List.take_of_length_le past, after_append, same, List.take_succ_cons,
          List.flatten_cons, after_append]

theorem whole_of_between {u : Setup C} {s : State C} (single : Single u)
    (between : Between u s) : Whole u s := by
  intro last held member
  obtain ⟨n, rfl⟩ := between.reads _ member held rfl
  obtain ⟨k, same⟩ := exists_whole single n
  exact ⟨k, congrArg KeyMap.values same⟩

/-- **Snapshots respect source transactions** in every interleaving of fan-out with any
number of subscriptions, if no transaction has two changes for the stream. -/
theorem whole_of_single (u : Setup C) (single : Single u) (es : List Ev) :
    (machine u).Along (Whole u) u.start es := by
  have always : (machine u).Meets (fun _ _ => True) u.start es :=
    Machine.meets_of_forall (Q := fun _ => True) (fun _ _ => trivial) _
  exact Machine.along_of_meets (I := Between u) (fun _ between => whole_of_between single between)
    (fun _ _ _ between _ stepped => between_step between stepped) (between_start u) always

namespace Tasks

def tasks : Definition Unit :=
  { name := "tasks", schema := "public", table := "tasks", primaryKey := ["id"]
    bind := some fun _ => .ok (.notNull "id") }

def task (id : Int64) : Row := KeyMap.ofList [("id", .int64 id)]

def inserted (id : Int64) (lsn : LSN) : Change :=
  { schema := "public", table := "tasks", op := .insert, commitLSN := lsn, new := some (task id) }

/-- A stream with one task, and two tasks that are inserted by `txns`. -/
def setup (txns : List (List Change)) : Setup Unit :=
  ⟨((Instance.start tasks (.notNull "id")).loadSnapshot 5 [some (task 1)]).1, txns, fun _ => none⟩

/-- Two transactions, each with one task. -/
def singles : Setup Unit := setup [[inserted 2 10], [inserted 3 20]]

theorem whole_of_single_interleaved :
    ∃ s, (machine singles).run singles.start
        [.fanOut, .subscribe, .read 0, .fanOut, .read 0, .read 0] = some s ∧
      .sent 1 {task 2, task 1} ∈ s.readers ∧ Whole singles s := by
  have replay : ((machine singles).run singles.start
      [.fanOut, .subscribe, .read 0, .fanOut, .read 0, .read 0]).map (fun s => s.readers) =
      some [.sent 1 {task 2, task 1}] := by
    decide +kernel
  obtain ⟨s, ran, readers⟩ := Option.map_eq_some_iff.1 replay
  have whole := (whole_of_single singles (by decide +kernel) _).last ran
  exact ⟨s, ran, readers ▸ List.mem_cons_self, whole⟩

/-- One transaction with both tasks. -/
def pair : Setup Unit := setup [[inserted 2 10, inserted 3 10]]

/-- A subscription between the two changes gets the first task and not the second. -/
theorem half_transaction_sent :
    ∃ s, (machine pair).run pair.start
        [.fanOut, .subscribe, .read 0, .fanOut, .read 0, .read 0] = some s ∧
      .sent 1 {task 2, task 1} ∈ s.readers ∧ ¬ Whole pair s := by
  have replay : ((machine pair).run pair.start
      [.fanOut, .subscribe, .read 0, .fanOut, .read 0, .read 0]).map (fun s => s.readers) =
      some [.sent 1 {task 2, task 1}] := by
    decide +kernel
  obtain ⟨s, ran, readers⟩ := Option.map_eq_some_iff.1 replay
  have sent : Reader.sent 1 {task 2, task 1} ∈ s.readers := readers ▸ List.mem_cons_self
  refine ⟨s, ran, sent, fun whole => ?_⟩
  obtain ⟨k, same⟩ := whole _ _ sent
  -- before the transaction there is one task, after it there are three
  have sizes : ∀ k : Nat, (after pair.inst (pair.txns.take k).flatten).materialized ≠
      {task 2, task 1} := by
    intro k
    cases k with
    | zero => decide +kernel
    | succ k =>
        have all : pair.txns.take (k + 1) = pair.txns :=
          List.take_of_length_le (by simp [pair, setup])
        rw [all]
        decide +kernel
  exact sizes k same.symm

end Tasks

end Tether.Transactions
