/-
# Tether.Lib.Joined — texts joined by a separator

A join can be read back when its parts are free of the separator, whatever the number
of parts (`join_inj`), and when corresponding parts are equal or free of it
(`join_inj_of_aligned`).  Without that a part can be a join itself (`join_nested`), and a
join says only how long its parts are together: parts that consist of separators are one
run of them, however they were cut (`join_separators`).
-/
import Mathlib.Data.List.Infix

namespace Tether.Lib

set_option autoImplicit false

variable {α : Type} {sep : α}

theorem join_inj {ps qs : List (List α)} (nonempty : ps ≠ []) (nonempty' : qs ≠ [])
    (free : ∀ p ∈ ps, sep ∉ p) (free' : ∀ q ∈ qs, sep ∉ q)
    (same : [sep].intercalate ps = [sep].intercalate qs) : ps = qs := by
  classical
  calc ps = ([sep].intercalate ps).splitOn sep := (List.splitOn_intercalate sep free nonempty).symm
    _ = ([sep].intercalate qs).splitOn sep := by rw [same]
    _ = qs := List.splitOn_intercalate sep free' nonempty'

/-- Two parts that a separator cannot confuse: equal, or both free of it. -/
def Aligned (sep : α) (p q : List α) : Prop := p = q ∨ (sep ∉ p ∧ sep ∉ q)

theorem Aligned.cancel {p q x y : List α} (aligned : Aligned sep p q)
    (same : p ++ sep :: x = q ++ sep :: y) : p = q ∧ x = y := by
  rcases aligned with rfl | ⟨free, free'⟩
  · exact ⟨rfl, by simpa using same⟩
  · rcases List.append_eq_append_iff.1 same with ⟨gap, rfl, tail⟩ | ⟨gap, rfl, tail⟩
    all_goals
      cases gap with
      | nil =>
          simp only [List.nil_append, List.cons.injEq, true_and] at tail
          exact ⟨by simp, by simp [tail]⟩
      | cons c gap =>
          simp only [List.cons_append, List.cons.injEq] at tail
          simp [← tail.1] at free free'

theorem join_inj_of_aligned {ps qs : List (List α)} (aligned : List.Forall₂ (Aligned sep) ps qs)
    (same : [sep].intercalate ps = [sep].intercalate qs) : ps = qs := by
  induction aligned with
  | nil => rfl
  | @cons p q ps qs head tail ih =>
      cases tail with
      | nil => simpa using same
      | cons head' tail' =>
          simp only [List.intercalate_cons_cons, List.append_assoc, List.singleton_append] at same
          obtain ⟨rfl, rest⟩ := head.cancel same
          rw [ih rest]

theorem join_cons (p : List α) {ps : List (List α)} (nonempty : ps ≠ []) :
    [sep].intercalate (p :: ps) = p ++ sep :: [sep].intercalate ps := by
  cases ps with
  | nil => exact absurd rfl nonempty
  | cons q ps => rw [List.intercalate_cons_cons, List.append_assoc, List.singleton_append]

theorem join_append {ps qs : List (List α)} (nonempty : ps ≠ []) (nonempty' : qs ≠ []) :
    [sep].intercalate (ps ++ qs) = [sep].intercalate ps ++ sep :: [sep].intercalate qs := by
  induction ps with
  | nil => exact absurd rfl nonempty
  | cons p ps ih =>
      by_cases last : ps = []
      · subst last
        rw [List.singleton_append, join_cons p nonempty', List.intercalate_singleton]
      · rw [List.cons_append, join_cons p (List.append_ne_nil_of_left_ne_nil last qs), ih last,
          join_cons p last, List.append_assoc, List.cons_append]

/-- A part that is a join itself is as good as its own parts. -/
theorem join_nested (sep : α) (ps : List (List α)) {qs : List (List α)} (nonempty : qs ≠ [])
    (rs : List (List α)) :
    [sep].intercalate (ps ++ [sep].intercalate qs :: rs) =
      [sep].intercalate (ps ++ (qs ++ rs)) := by
  have inner : [sep].intercalate ([sep].intercalate qs :: rs) = [sep].intercalate (qs ++ rs) := by
    by_cases last : rs = []
    · subst last
      rw [List.intercalate_singleton, List.append_nil]
    · rw [join_cons _ last, join_append nonempty last]
  by_cases first : ps = []
  · subst first
    exact inner
  · rw [join_append first (List.cons_ne_nil _ _), inner,
      join_append first (List.append_ne_nil_of_left_ne_nil nonempty rs)]

theorem length_join (p : List α) (ps : List (List α)) :
    ([sep].intercalate (p :: ps)).length = p.length + ps.flatten.length + ps.length := by
  induction ps generalizing p with
  | nil => simp
  | cons q ps ih =>
      simp only [List.intercalate_cons_cons, List.length_append, ih, List.flatten_cons,
        List.length_cons, List.length_nil]
      omega

theorem length_flatten_const {β : Type} (bs : List β) (p : List α) :
    (bs.map fun _ => p).flatten.length = bs.length * p.length := by
  induction bs with
  | nil => simp
  | cons b bs ih =>
      rw [List.map_cons, List.flatten_cons, List.length_append, ih, List.length_cons,
        Nat.succ_mul, Nat.add_comm]

theorem prefix_join (sep : α) (p : List α) (ps : List (List α)) :
    p <+: [sep].intercalate (p :: ps) := by
  cases ps with
  | nil => simp
  | cons q ps =>
      rw [List.intercalate_cons_cons, List.append_assoc]
      exact List.prefix_append _ _

/-- Equal parts, as many on both sides. -/
theorem join_const_inj {β : Type} {bs : List β} (nonempty : bs ≠ []) {p q : List α}
    (same : [sep].intercalate (bs.map fun _ => p) = [sep].intercalate (bs.map fun _ => q)) :
    p = q := by
  cases bs with
  | nil => exact absurd rfl nonempty
  | cons b bs =>
      simp only [List.map_cons] at same
      have lengths := congrArg List.length same
      rw [length_join, length_join, length_flatten_const, length_flatten_const] at lengths
      simp only [List.length_map] at lengths
      have length : p.length = q.length := by
        have total : (bs.length + 1) * p.length = (bs.length + 1) * q.length := by
          rw [Nat.succ_mul, Nat.succ_mul]
          omega
        exact Nat.eq_of_mul_eq_mul_left (Nat.succ_pos _) total
      have left := prefix_join sep p (bs.map fun _ => p)
      have right := prefix_join sep q (bs.map fun _ => q)
      rw [same] at left
      exact (List.prefix_of_prefix_length_le left right (Nat.le_of_eq length)).eq_of_length length

theorem forall_mem_join {ps : List (List α)} (separators : ∀ p ∈ ps, ∀ c ∈ p, c = sep) :
    ∀ c ∈ [sep].intercalate ps, c = sep := by
  induction ps with
  | nil => simp
  | cons p ps ih =>
      have later := ih fun q member => separators q (List.mem_cons_of_mem _ member)
      have first := separators p List.mem_cons_self
      cases ps with
      | nil => simpa using first
      | cons q ps =>
          intro c member
          rw [List.intercalate_cons_cons, List.append_assoc, List.mem_append,
            List.mem_append] at member
          rcases member with inside | here | after
          · exact first c inside
          · exact List.mem_singleton.1 here
          · exact later c after

/-- Of parts that are nothing but separators, only the lengths together are left. -/
theorem join_separators {ps qs : List (List α)} (separators : ∀ p ∈ ps, ∀ c ∈ p, c = sep)
    (separators' : ∀ q ∈ qs, ∀ c ∈ q, c = sep) (count : ps.length = qs.length)
    (total : ps.flatten.length = qs.flatten.length) :
    [sep].intercalate ps = [sep].intercalate qs := by
  have length : ([sep].intercalate ps).length = ([sep].intercalate qs).length := by
    cases ps with
    | nil => rw [List.length_eq_zero_iff.1 count.symm]
    | cons p ps =>
        cases qs with
        | nil => cases count
        | cons q qs =>
            simp only [List.flatten_cons, List.length_append, List.length_cons] at total count
            rw [length_join, length_join]
            omega
  rw [List.eq_replicate_of_mem (forall_mem_join separators),
    List.eq_replicate_of_mem (forall_mem_join separators'), length]

end Tether.Lib
