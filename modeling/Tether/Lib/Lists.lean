/-
# Tether.Lib.Lists — first parts, positions and queues

Facts about lists that state machines keep asking for: what a list holds at a position
after one write or one append, which elements of a list in increasing order are in its
first part, and when a log works a queue off in order.

`InOrder queue done` says that the entries of `done` that belong to `queue` are a first
part of it.  `done` may serve many queues: an entry of another queue changes nothing
(`InOrder.skip`), and the next entry of this one extends it (`InOrder.next`).
-/
import Mathlib.Data.List.Forall2
import Mathlib.Data.List.Nodup
import Mathlib.Data.List.Perm.Subperm
import Mathlib.Tactic.ByContra

namespace Tether.Lib

set_option autoImplicit false

variable {α β : Type}

/-! ## Members -/

/-- Looks at the members one by one.  Over a finite type such as `Char` the quantifier
itself is decided by trying every value. -/
theorem forall_mem_of_all {p : α → Prop} [DecidablePred p] {l : List α}
    (all : l.all (fun a => decide (p a)) = true) : ∀ a ∈ l, p a :=
  fun a member => of_decide_eq_true (List.all_eq_true.1 all a member)

/-! ## Positions -/

theorem getElem?_set_cases {l : List α} {i j : Nat} {x y : α}
    (found : (l.set i x)[j]? = some y) : j = i ∧ y = x ∨ j ≠ i ∧ l[j]? = some y := by
  rw [List.getElem?_set] at found
  split at found
  · next same =>
      split at found
      · exact .inl ⟨same.symm, (Option.some.inj found).symm⟩
      · cases found
  · next other => exact .inr ⟨Ne.symm other, found⟩

theorem getElem?_concat_cases {l : List α} {j : Nat} {x y : α}
    (found : (l ++ [x])[j]? = some y) : l[j]? = some y ∨ y = x := by
  rw [List.getElem?_append] at found
  split at found
  · exact .inl found
  · exact .inr (List.mem_singleton.1 (List.mem_of_getElem? found))

theorem getElem?_append_of_some {l : List α} {j : Nat} {y : α} (found : l[j]? = some y)
    (more : List α) : (l ++ more)[j]? = some y := by
  rw [List.getElem?_append_left (List.getElem?_eq_some_iff.1 found).1, found]

theorem zip_set {l : List α} {l' : List β} {i : Nat} {a : α} (here : l[i]? = some a) (b : β) :
    l.zip (l'.set i b) = (l.zip l').set i (a, b) := by
  induction l generalizing l' i with
  | nil => cases here
  | cons x l ih =>
      cases l' with
      | nil => rfl
      | cons y l' =>
          cases i with
          | zero =>
              cases here
              rfl
          | succ i => exact congrArg ((x, y) :: ·) (ih here)

/-! ## Positions among the elements that pass a test -/

section Filter

variable {p : α → Bool} {l : List α} {i : Nat} {x y : α}

theorem eq_take_append_of_getElem? (here : l[i]? = some y) :
    l = l.take i ++ y :: l.drop (i + 1) := by
  obtain ⟨inside, rfl⟩ := List.getElem?_eq_some_iff.1 here
  rw [← List.drop_eq_getElem_cons inside, List.take_append_drop]

theorem set_eq_take_append (here : l[i]? = some y) :
    l.set i x = l.take i ++ x :: l.drop (i + 1) :=
  List.set_eq_take_append_cons_drop.trans (if_pos (List.getElem?_eq_some_iff.1 here).1)

theorem filter_set_of_neg (here : l[i]? = some y) (out : p y = false) (out' : p x = false) :
    (l.set i x).filter p = l.filter p := by
  rw [set_eq_take_append here]
  nth_rewrite 3 [eq_take_append_of_getElem? here]
  simp [out, out']

theorem getElem?_filter (here : l[i]? = some y) (passes : p y) :
    (l.filter p)[((l.take i).filter p).length]? = some y := by
  nth_rewrite 1 [eq_take_append_of_getElem? here]
  simp [passes]

theorem filter_set_of_pos (here : l[i]? = some y) (passes : p y) (passes' : p x) :
    (l.set i x).filter p = (l.filter p).set ((l.take i).filter p).length x := by
  rw [set_eq_take_append here]
  nth_rewrite 3 [eq_take_append_of_getElem? here]
  simp [passes, passes']

end Filter

/-! ## Lists in the order of a number -/

section Increasing

variable {rank : α → Nat} {l : List α} {n : Nat}

theorem mem_take_of_le (increasing : l.Pairwise fun a b => rank a < rank b) {a b : α}
    (member : a ∈ l) (first : b ∈ l.take n) (le : rank a ≤ rank b) : a ∈ l.take n := by
  rw [← List.take_append_drop n l] at increasing member
  rcases List.mem_append.1 member with here | later
  · exact here
  · exact absurd ((List.pairwise_append.1 increasing).2.2 b first a later) (Nat.not_lt.2 le)

theorem rank_lt_of_mem_take (increasing : l.Pairwise fun a b => rank a < rank b)
    (inside : n < l.length) {b : α} (first : b ∈ l.take n) : rank b < rank l[n] := by
  have next : l[n] ∈ l.drop n := by
    rw [List.drop_eq_getElem_cons inside]
    exact List.mem_cons_self
  rw [← List.take_append_drop n l] at increasing
  exact (List.pairwise_append.1 increasing).2.2 b first _ next

theorem le_of_take_le (increasing : l.Pairwise fun a b => rank a < rank b) {k : Nat}
    (short : k ≤ l.length) (below : ∀ a ∈ l.take k, ∃ b ∈ l.take n, rank a ≤ rank b) : k ≤ n := by
  by_contra beyond
  have inside : n < l.length := by omega
  obtain ⟨b, first, le⟩ := below l[n] (List.mem_take_iff_getElem.2 ⟨n, by omega, rfl⟩)
  exact absurd (rank_lt_of_mem_take increasing inside first) (Nat.not_lt.2 le)

end Increasing

/-! ## Traversals -/

theorem exists_mem_of_forall₂ {rel : α → β → Prop} {l : List α} {l' : List β}
    (all : List.Forall₂ rel l l') {a : α} (member : a ∈ l) : ∃ b ∈ l', rel a b := by
  induction all with
  | nil => cases member
  | cons here _ ih =>
      rcases List.mem_cons.1 member with rfl | later
      · exact ⟨_, List.mem_cons_self, here⟩
      · obtain ⟨b, found, related⟩ := ih later
        exact ⟨b, List.mem_cons_of_mem _ found, related⟩

theorem mapM_eq_some_iff {f : α → Option β} {l : List α} {l' : List β} :
    l.mapM f = some l' ↔ List.Forall₂ (fun a b => f a = some b) l l' := by
  induction l generalizing l' with
  | nil => simp [eq_comm]
  | cons a l ih =>
      cases here : f a with
      | none => simp [here, List.forall₂_cons_left_iff]
      | some b =>
          cases rest : l.mapM f with
          | none =>
              have stuck : ∀ bs, ¬ List.Forall₂ (fun a b => f a = some b) l bs := fun bs all =>
                by simpa [rest] using ih.2 all
              simp [here, rest, List.forall₂_cons_left_iff, stuck]
          | some bs =>
              simp only [List.mapM_cons, here, rest, List.forall₂_cons_left_iff, ← ih]
              simp [eq_comm]

/-- What holds of each result holds of the list of them. -/
theorem map_eq_of_mapM {γ : Type} {f : α → Option β} {g : β → γ} {h : α → γ} {l : List α}
    {l' : List β} (mapped : l.mapM f = some l') (each : ∀ a ∈ l, ∀ b, f a = some b → g b = h a) :
    l'.map g = l.map h := by
  induction l generalizing l' with
  | nil =>
      cases mapped
      rfl
  | cons a l ih =>
      obtain ⟨b, bs, here, later, rfl⟩ :=
        List.forall₂_cons_left_iff.1 (mapM_eq_some_iff.1 mapped)
      rw [List.map_cons, List.map_cons, each a List.mem_cons_self b here,
        ih (mapM_eq_some_iff.2 later) fun a' member => each a' (List.mem_cons_of_mem _ member)]

theorem map_eq_ok_iff {ε γ : Type} {f : β → γ} {x : Except ε β} {c : γ} :
    x.map f = .ok c ↔ ∃ b, x = .ok b ∧ f b = c := by
  cases x <;> simp [Except.map]

theorem mapM_eq_ok_iff {ε : Type} {f : α → Except ε β} {l : List α} {l' : List β} :
    l.mapM f = .ok l' ↔ List.Forall₂ (fun a b => f a = .ok b) l l' := by
  induction l generalizing l' with
  | nil => cases l' <;> simp [pure, Except.pure]
  | cons a l ih =>
      rw [List.mapM_cons, List.forall₂_cons_left_iff]
      cases here : f a with
      | error err => simp [bind, Except.bind]
      | ok b =>
          cases rest : l.mapM f with
          | error err => simp [bind, Except.bind, ← ih, rest]
          | ok bs => simp [bind, Except.bind, pure, Except.pure, ← ih, rest, eq_comm]

theorem isSome_mapM_iff {f : α → Option β} {l : List α} :
    (l.mapM f).isSome ↔ ∀ a ∈ l, (f a).isSome := by
  induction l with
  | nil => simp
  | cons a l ih =>
      rw [List.mapM_cons, List.forall_mem_cons, ← ih]
      cases f a <;> cases l.mapM f <;> simp

/-! ## Queues -/

section Queues

variable [DecidableEq α] {queue done : List α}

/-- The entries of `done` that belong to `queue` are a first part of it. -/
def InOrder (queue done : List α) : Prop := done.filter (· ∈ queue) <+: queue

theorem InOrder.nil (queue : List α) : InOrder queue [] := List.nil_prefix

theorem InOrder.skip (inOrder : InOrder queue done) {x : α} (other : x ∉ queue) :
    InOrder queue (done ++ [x]) := by
  have nothing : [x].filter (· ∈ queue) = [] := by simp [other]
  rw [InOrder, List.filter_append, nothing, List.append_nil]
  exact inOrder

/-- The entry after those that are done is the next one. -/
theorem InOrder.next (inOrder : InOrder queue done) (nodup : queue.Nodup) {n : Nat} {x : α}
    (here : queue[n]? = some x) (before : ∀ y ∈ queue.take n, y ∈ done) (new : x ∉ done) :
    InOrder queue (done ++ [x]) := by
  obtain ⟨inside, rfl⟩ := List.getElem?_eq_some_iff.1 here
  obtain ⟨p, short, part⟩ : ∃ p ≤ queue.length, done.filter (· ∈ queue) = queue.take p :=
    ⟨_, inOrder.length_le, List.prefix_iff_eq_take.1 inOrder⟩
  have isDone : ∀ m, (short : m < queue.length) → (queue[m] ∈ done ↔ m < p) := fun m short => by
    have member : queue[m] ∈ done ↔ queue[m] ∈ queue.take p := by
      rw [← part, List.mem_filter]
      simp
    rw [member, List.mem_take_iff_getElem]
    constructor
    · rintro ⟨i, bound, same⟩
      have index : i = m := (nodup.getElem_inj_iff).1 same
      omega
    · intro below
      exact ⟨m, by omega, rfl⟩
  have reached : p = n := by
    have notBelow : ¬ n < p := fun below => new ((isDone n inside).2 below)
    have notAbove : ¬ p < n := fun above => by
      have first : queue[p] ∈ queue.take n := List.mem_take_iff_getElem.2 ⟨p, by omega, rfl⟩
      exact absurd ((isDone p (by omega)).1 (before _ first)) (Nat.lt_irrefl p)
    omega
  have whole : [queue[n]].filter (· ∈ queue) = [queue[n]] := by simp
  rw [InOrder, List.filter_append, part, reached, whole, List.take_append_getElem inside]
  exact List.take_prefix _ _

/-- A queue all of whose entries are done is done whole. -/
theorem InOrder.complete (inOrder : InOrder queue done) (nodup : queue.Nodup)
    (all : ∀ x ∈ queue, x ∈ done) : done.filter (· ∈ queue) = queue := by
  refine inOrder.eq_of_length_le ?_
  have within : queue ⊆ done.filter (· ∈ queue) := fun x member =>
    List.mem_filter.2 ⟨all x member, by simpa⟩
  exact (List.subperm_of_subset nodup within).length_le

end Queues

end Tether.Lib
