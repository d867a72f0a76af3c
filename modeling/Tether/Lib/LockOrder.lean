/-
# Tether.Lib.LockOrder — locks taken in the order of their ranks

Threads take and give back shares of resources.  A resource has a capacity: one for a
mutex, the number of connections for a pool.  A thread that asks for more than is free
waits, and holds what it has.

A `Script` says which resources a piece of code takes, in brackets; `Trace` lists the
sequences of operations that its branches and loops allow.  A script `Fits` a level when it
takes only resources of that rank or above, and inside a bracket only of higher rank.  That
is checked along the script, one function at a time, and it is enough: threads that run
traces of such scripts are never all stuck (`progress`), so every schedule can be completed
(`completes`) and none goes on forever (`run_length`).

The argument is the usual one.  Of the threads that wait, take one whose resource has the
highest rank; whoever holds that resource waits for one of a higher rank still.
-/
import Mathlib.Data.Finset.Max
import Mathlib.Data.Fintype.BigOperators
import Tether.Lib.Machine

namespace Tether.Lib.Locks

set_option autoImplicit false

inductive Op (R : Type) where
  | acquire (r : R) (n : Nat)
  | release (r : R) (n : Nat)

/-- What code does to resources.  `any` is a piece of code about one of many objects, and
`loop` runs its body any number of times. -/
inductive Script (R : Type) where
  | skip
  | locked (r : R) (n : Nat) (body : Script R)
  | seq (first second : Script R)
  | choice (left right : Script R)
  | any (body : Nat → Script R)
  | loop (body : Script R)

namespace Script

variable {R : Type}

/-- `for _, x := range xs { body(x) }`, whatever `xs` is. -/
def forEach (body : Nat → Script R) : Script R := loop (any body)

/-- One script after the other. -/
def block : List (Script R) → Script R
  | [] => skip
  | s :: rest => seq s (block rest)

inductive Trace : Script R → List (Op R) → Prop where
  | skip : Trace skip []
  | locked {r : R} {n : Nat} {body : Script R} {w : List (Op R)} : Trace body w →
      Trace (locked r n body) (.acquire r n :: (w ++ [.release r n]))
  | seq {first second : Script R} {w w' : List (Op R)} : Trace first w → Trace second w' →
      Trace (seq first second) (w ++ w')
  | left {left right : Script R} {w : List (Op R)} : Trace left w → Trace (choice left right) w
  | right {left right : Script R} {w : List (Op R)} : Trace right w →
      Trace (choice left right) w
  | any {body : Nat → Script R} {w : List (Op R)} (i : Nat) : Trace (body i) w →
      Trace (any body) w
  | done {body : Script R} : Trace (loop body) []
  | again {body : Script R} {w w' : List (Op R)} : Trace body w → Trace (loop body) w' →
      Trace (loop body) (w ++ w')

end Script

/-- Resources with their capacities and ranks. -/
structure Order (R : Type) where
  cap : R → Nat
  rank : R → Nat

variable {R : Type} (o : Order R)

/-- Nothing of rank `k` or above is taken outside of the brackets, and in a bracket only
what ranks above it. -/
def Script.Fits : Nat → Script R → Prop
  | _, .skip => True
  | k, .locked r n body => k ≤ o.rank r ∧ 0 < n ∧ n ≤ o.cap r ∧ Script.Fits (o.rank r + 1) body
  | k, .seq first second => Script.Fits k first ∧ Script.Fits k second
  | k, .choice left right => Script.Fits k left ∧ Script.Fits k right
  | k, .any body => ∀ i, Script.Fits k (body i)
  | k, .loop body => Script.Fits k body

section Rules

variable {o} {k : Nat}

@[simp] theorem fits_skip : Script.Fits o k .skip := trivial

@[simp] theorem fits_forEach {body : Nat → Script R} :
    Script.Fits o k (.forEach body) ↔ ∀ i, Script.Fits o k (body i) := Iff.rfl

@[simp] theorem fits_choice {left right : Script R} :
    Script.Fits o k (.choice left right) ↔ Script.Fits o k left ∧ Script.Fits o k right := Iff.rfl

@[simp] theorem fits_any {body : Nat → Script R} :
    Script.Fits o k (.any body) ↔ ∀ i, Script.Fits o k (body i) := Iff.rfl

@[simp] theorem fits_loop {body : Script R} :
    Script.Fits o k (.loop body) ↔ Script.Fits o k body := Iff.rfl

@[simp] theorem fits_locked {r : R} {n : Nat} {body : Script R} :
    Script.Fits o k (.locked r n body) ↔
      k ≤ o.rank r ∧ 0 < n ∧ n ≤ o.cap r ∧ Script.Fits o (o.rank r + 1) body := Iff.rfl

@[simp] theorem fits_block {scripts : List (Script R)} :
    Script.Fits o k (.block scripts) ↔ ∀ s ∈ scripts, Script.Fits o k s := by
  induction scripts with
  | nil => simp [Script.block]
  | cons s rest ih => simp [Script.block, Script.Fits, ih]

end Rules

/-! ## Ordered sequences of operations -/

variable [DecidableEq R]

/-- With `held` in its hands, a thread takes only what ranks above all of it, gives back no
more than it has, and has nothing at the end. -/
def Ordered : (R → Nat) → List (Op R) → Prop
  | held, [] => ∀ r, held r = 0
  | held, .acquire r n :: w => 0 < n ∧ n ≤ o.cap r ∧ (∀ r', 0 < held r' → o.rank r' < o.rank r) ∧
      Ordered (Function.update held r (held r + n)) w
  | held, .release r n :: w => n ≤ held r ∧ Ordered (Function.update held r (held r - n)) w

/-- All that is held ranks below `k`. -/
def Below (k : Nat) (held : R → Nat) : Prop := ∀ r, 0 < held r → o.rank r < k

variable {o} {k : Nat} {held : R → Nat}

omit [DecidableEq R] in
theorem below_zero (k : Nat) : Below o k (fun _ : R => 0) := fun _ some =>
  absurd some (Nat.lt_irrefl 0)

/-- A trace of a script that fits can stand before anything, and leaves `held` as it was. -/
theorem Script.Trace.ordered {s : Script R} {w : List (Op R)} (trace : s.Trace w)
    (fits : s.Fits o k) (below : Below o k held) {rest : List (Op R)}
    (after : Ordered o held rest) : Ordered o held (w ++ rest) := by
  induction trace generalizing k held rest with
  | skip => exact after
  | @locked r n body w _ ih =>
      obtain ⟨low, some, within, inner⟩ := fits
      have lower : ∀ r', 0 < held r' → o.rank r' < o.rank r := fun r' has =>
        (below r' has).trans_le low
      have free : held r = 0 := Nat.eq_zero_of_not_pos fun has => (lower r has).false
      rw [List.cons_append, List.append_assoc]
      refine ⟨some, within, lower, ?_⟩
      refine ih inner (fun r' has => ?_) ⟨?_, ?_⟩
      · by_cases same : r' = r
        · rw [same]
          exact Nat.lt_succ_self _
        · rw [Function.update_of_ne same] at has
          exact (lower r' has).trans (Nat.lt_succ_self _)
      · rw [Function.update_self]
        exact Nat.le_add_left n _
      · have back : Function.update (Function.update held r (held r + n)) r
            ((Function.update held r (held r + n)) r - n) = held := by
          rw [Function.update_idem, Function.update_self, Nat.add_sub_cancel,
            Function.update_eq_self]
        rw [back]
        exact after
  | seq _ _ ih ih' =>
      rw [List.append_assoc]
      exact ih fits.1 below (ih' fits.2 below after)
  | left _ ih => exact ih fits.1 below after
  | right _ ih => exact ih fits.2 below after
  | any i _ ih => exact ih (fits i) below after
  | done => exact after
  | again _ _ ih ih' =>
      rw [List.append_assoc]
      exact ih fits below (ih' fits below after)

/-! ## Threads -/

variable {ι : Type} [Fintype ι] [DecidableEq ι]

/-- What each thread has still to do, and what it holds. -/
structure System (ι R : Type) where
  rest : ι → List (Op R)
  held : ι → R → Nat

namespace System

def moved (s : System ι R) (i : ι) (w : List (Op R)) (held : R → Nat) : System ι R :=
  ⟨Function.update s.rest i w, Function.update s.held i held⟩

variable (o) in
/-- Thread `i` takes its next step, unless it must wait. -/
def step (s : System ι R) (i : ι) : Option (System ι R) :=
  match s.rest i with
  | [] => none
  | .acquire r n :: w =>
      if ∑ j, s.held j r + n ≤ o.cap r then
        some (s.moved i w (Function.update (s.held i) r (s.held i r + n)))
      else none
  | .release r n :: w => some (s.moved i w (Function.update (s.held i) r (s.held i r - n)))

variable (o) in
/-- Every thread keeps to the order. -/
def Orderly (s : System ι R) : Prop := ∀ i, Ordered o (s.held i) (s.rest i)

variable (ι o) in
def machine : Machine (System ι R) ι where
  init := Orderly o
  step := step o

def Finished (s : System ι R) : Prop := ∀ i, s.rest i = []

variable {s t : System ι R}

omit [Fintype ι] in
theorem orderly_moved (orderly : s.Orderly o) {i : ι} {w : List (Op R)} {held : R → Nat}
    (own : Ordered o held w) : (s.moved i w held).Orderly o := by
  intro j
  by_cases same : j = i
  · subst same
    simp only [moved, Function.update_self]
    exact own
  · simp only [moved, Function.update_of_ne same]
    exact orderly j

theorem orderly_step {i : ι} (orderly : s.Orderly o) (stepped : s.step o i = some t) :
    t.Orderly o := by
  have own := orderly i
  unfold step at stepped
  split at stepped
  · cases stepped
  · next r n w next =>
      split at stepped
      · cases stepped
        rw [next] at own
        exact orderly_moved orderly own.2.2.2
      · cases stepped
  · next r n w next =>
      cases stepped
      rw [next] at own
      exact orderly_moved orderly own.2

/-- A thread that cannot go on waits for a resource that another one holds, and that
ranks above all it holds itself. -/
theorem waits {i : ι} (orderly : s.Orderly o) (unfinished : s.rest i ≠ [])
    (stuck : s.step o i = none) :
    ∃ r n w, s.rest i = .acquire r n :: w ∧ (∀ r', 0 < s.held i r' → o.rank r' < o.rank r) ∧
      ∃ j, 0 < s.held j r := by
  have own := orderly i
  unfold step at stuck
  split at stuck
  · next finished => exact absurd finished unfinished
  · next r n w next =>
      rw [next] at own
      obtain ⟨-, within, lower, -⟩ := own
      split at stuck
      · cases stuck
      · next full =>
          refine ⟨r, n, w, next, lower, ?_⟩
          by_contra free
          have none : ∑ j, s.held j r = 0 :=
            Finset.sum_eq_zero fun j _ => Nat.eq_zero_of_not_pos fun has => free ⟨j, has⟩
          exact full (by rw [none, Nat.zero_add]; exact within)
  · cases stuck

variable (o) in
/-- The rank of what a thread asks for next. -/
def wanted (s : System ι R) (i : ι) : Nat :=
  match s.rest i with
  | .acquire r _ :: _ => o.rank r
  | _ => 0

/-- **No deadlock.**  While a thread has something to do, some thread can do it. -/
theorem progress (orderly : s.Orderly o) (unfinished : ¬ s.Finished) :
    ∃ i, (s.step o i).isSome := by
  by_contra stuck
  have waiting : ∀ i, s.rest i ≠ [] → ∃ r n w, s.rest i = .acquire r n :: w ∧
      (∀ r', 0 < s.held i r' → o.rank r' < o.rank r) ∧ ∃ j, 0 < s.held j r := fun i busy =>
    waits orderly busy (Option.not_isSome_iff_eq_none.1 fun moves => stuck ⟨i, moves⟩)
  obtain ⟨first, busy⟩ := not_forall.1 unfinished
  obtain ⟨i, member, highest⟩ := Finset.exists_max_image
    (Finset.univ.filter fun i => ¬ (s.rest i).isEmpty) (s.wanted o)
    ⟨first, by simpa [List.isEmpty_iff] using busy⟩
  obtain ⟨r, n, w, next, -, j, has⟩ := waiting i (by simpa [List.isEmpty_iff] using member)
  have busy : s.rest j ≠ [] := by
    intro finished
    have own := orderly j
    rw [finished] at own
    rw [own r] at has
    exact absurd has (Nat.lt_irrefl 0)
  obtain ⟨r', n', w', next', lower, -⟩ := waiting j busy
  -- `j` holds what `i` waits for, so it waits for something higher
  have above : s.wanted o j ≤ s.wanted o i := highest j (by simpa [List.isEmpty_iff] using busy)
  simp only [wanted, next, next'] at above
  exact absurd (lower r has) (Nat.not_lt.2 above)

/-! ## Whole runs -/

def remaining (s : System ι R) : Nat := ∑ i, (s.rest i).length

theorem remaining_step {i : ι} (stepped : s.step o i = some t) :
    t.remaining + 1 = s.remaining := by
  have shorter : ∀ op w held, s.rest i = op :: w →
      (s.moved i w held).remaining + 1 = s.remaining := by
    intro op w held next
    have others : ∑ j ∈ Finset.univ.erase i, ((s.moved i w held).rest j).length =
        ∑ j ∈ Finset.univ.erase i, (s.rest j).length := by
      refine Finset.sum_congr rfl fun j member => ?_
      simp only [moved, Function.update_of_ne (Finset.ne_of_mem_erase member)]
    rw [remaining, remaining, ← Finset.add_sum_erase _ _ (Finset.mem_univ i),
      ← Finset.add_sum_erase _ (fun j => (s.rest j).length) (Finset.mem_univ i), others, next]
    simp only [moved, Function.update_self, List.length_cons]
    omega
  unfold step at stepped
  split at stepped
  · cases stepped
  · next r n w next =>
      split at stepped
      · cases stepped
        exact shorter _ w _ next
      · cases stepped
  · next r n w next =>
      cases stepped
      exact shorter _ w _ next

/-- No schedule is longer than what there is to do. -/
theorem run_length {schedule : List ι} (ran : (machine o ι).run s schedule = some t) :
    schedule.length + t.remaining = s.remaining := by
  induction schedule generalizing s with
  | nil =>
      cases ran
      exact Nat.zero_add _
  | cons i schedule ih =>
      obtain ⟨s', stepped, rest⟩ := Machine.run_cons.1 ran
      have later := ih rest
      have here := remaining_step stepped
      rw [List.length_cons]
      omega

theorem orderly_run {schedule : List ι} (orderly : s.Orderly o)
    (ran : (machine o ι).run s schedule = some t) : t.Orderly o := by
  induction schedule generalizing s with
  | nil =>
      cases ran
      exact orderly
  | cons i schedule ih =>
      obtain ⟨s', stepped, rest⟩ := Machine.run_cons.1 ran
      exact ih (orderly_step orderly stepped) rest

/-- **Every run can be completed.** -/
theorem completes (orderly : s.Orderly o) :
    ∃ schedule t, (machine o ι).run s schedule = some t ∧ t.Finished := by
  induction left : s.remaining using Nat.strong_induction_on generalizing s with
  | _ left ih =>
      by_cases finished : s.Finished
      · exact ⟨[], s, rfl, finished⟩
      · obtain ⟨i, moves⟩ := progress orderly finished
        obtain ⟨s', stepped⟩ := Option.isSome_iff_exists.1 moves
        have less := remaining_step stepped
        obtain ⟨schedule, t, ran, done⟩ := ih s'.remaining (by omega)
          (orderly_step orderly stepped) rfl
        exact ⟨i :: schedule, t, Machine.run_cons.2 ⟨s', stepped, ran⟩, done⟩

end System

end Tether.Lib.Locks
