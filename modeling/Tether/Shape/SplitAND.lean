/-
# Tether.Shape.SplitAND — where a clause is cut

`splitAND` looks for ` AND ` in an upper-cased copy and cuts the clause at the positions it
finds there.  A separator of the copy is one of the clause (`beforesFrom_of_some`), but its
position in the copy is the length of the upper-cased text before it.  So the clause is cut
at these lengths (`splitAND_eq_cutAt`), and everything the cuts do is read off them: whether
a slice is out of range (`cutAt_isSome_iff`), whether separators stand between the fragments
(`rejoins_iff`), and whether the clause is cut at its own separators (`splitAND_own_iff`).
No other slice of `ParseWhere` can be out of range (`parseWhere_panics_iff`).

Where upper-casing keeps the width of every character (`Steady`), the clause is cut between
its characters (`splitAND_cut`).
-/
import Tether.Lib.Lists
import Tether.Lib.Utf8
import Tether.Shape.ParseWhere

namespace Tether.Shape

open Tether.Lib Tether.Lib.GoString Tether.Wal

set_option autoImplicit false

variable {u : Unicode}

/-- Upper-casing keeps the number of bytes. -/
def Steady (u : Unicode) (c : Char) : Prop := (u.toUpper c).utf8Size = c.utf8Size

theorem length_encode_toUpper {cs : List Char} (steady : ∀ c ∈ cs, Steady u c) :
    (encode (cs.map u.toUpper)).length = (encode cs).length := by
  induction cs with
  | nil => rfl
  | cons c cs ih =>
      have first : (u.toUpper c).utf8Size = c.utf8Size := steady c List.mem_cons_self
      rw [List.map_cons, encode_cons, encode_cons, List.length_append, List.length_append,
        String.length_utf8EncodeChar, String.length_utf8EncodeChar, first,
        ih fun d member => steady d (List.mem_cons_of_mem _ member)]

/-! ## The loop -/

/-- ` AND `. -/
def conjunction : List Char := " AND ".toList

theorem splitFrom_of_none {clause upper : GoString} {start : Nat}
    (absent : upper.index (encode conjunction) = none) :
    splitFrom clause upper start =
      (clause.slice start clause.length).map fun part => [part] := by
  rw [splitFrom]
  split
  · rfl
  · next i found =>
      rw [show ofString " AND " = encode conjunction from rfl, absent] at found
      cases found

theorem splitFrom_of_some {clause upper : GoString} {start i : Nat}
    (found : upper.index (encode conjunction) = some i) :
    splitFrom clause upper start =
      (clause.slice start (start + i)).bind fun part =>
        (splitFrom clause (upper.drop (i + 5)) (start + i + 5)).map (part :: ·) := by
  rw [splitFrom]
  split
  · next absent =>
      rw [show ofString " AND " = encode conjunction from rfl, found] at absent
      cases absent
  · next j found' =>
      rw [show ofString " AND " = encode conjunction from rfl, found] at found'
      cases found'
      rfl

/-- The last turn: no separator is found after `done`. -/
theorem splitFrom_last {done part upper : List Char}
    (absent : (encode upper).index (encode conjunction) = none) :
    splitFrom (encode (done ++ part)) (encode upper) (encode done).length =
      some [encode part] := by
  rw [splitFrom_of_none absent, encode_append, slice_rest]
  rfl

/-- A turn that finds the separator where the fragment ends. -/
theorem splitFrom_turn {done part sep rest upper : List Char}
    (found : (encode upper).index (encode conjunction) = some (encode part).length)
    (size : (encode sep).length = 5) :
    splitFrom (encode (done ++ (part ++ (sep ++ rest)))) (encode upper) (encode done).length =
      (splitFrom (encode (done ++ (part ++ sep) ++ rest))
        ((encode upper).drop ((encode part).length + 5))
        (encode (done ++ (part ++ sep))).length).map (encode part :: ·) := by
  have here := slice_append (encode done) (encode part) (encode (sep ++ rest))
  rw [← encode_append, ← encode_append] at here
  have start : (encode done).length + (encode part).length + 5 =
      (encode (done ++ (part ++ sep))).length := by
    rw [encode_append, encode_append, List.length_append, List.length_append, size]
    omega
  have text : done ++ (part ++ (sep ++ rest)) = done ++ (part ++ sep) ++ rest := by
    simp only [List.append_assoc]
  rw [splitFrom_of_some found, here, Option.bind_some, start, text]

theorem length_encode_conjunction : (encode conjunction).length = 5 := by decide

/-! ## The separators of a text -/

/-- The text before each separator of `cs`, which stands after `done`.  Separators are found
from left to right; `skip` characters still belong to the one before. -/
def beforesFrom (u : Unicode) : (done : List Char) → (skip : Nat) → List Char → List (List Char)
  | _, _, [] => []
  | done, skip + 1, c :: cs => beforesFrom u (done ++ [c]) skip cs
  | done, 0, c :: cs =>
      if conjunction <+: (c :: cs).map u.toUpper then done :: beforesFrom u (done ++ [c]) 4 cs
      else beforesFrom u (done ++ [c]) 0 cs

/-- The text before each separator. -/
def befores (u : Unicode) (text : List Char) : List (List Char) := beforesFrom u [] 0 text

theorem beforesFrom_skip (done sep rest : List Char) :
    beforesFrom u done sep.length (sep ++ rest) = beforesFrom u (done ++ sep) 0 rest := by
  induction sep generalizing done with
  | nil => rw [List.append_nil, List.length_nil, List.nil_append]
  | cons c sep ih =>
      rw [List.length_cons, List.cons_append, beforesFrom, ih, List.append_assoc,
        List.singleton_append]

theorem length_sep {sep : List Char} (upper : sep.map u.toUpper = conjunction) :
    sep.length = 5 := by
  have size := congrArg List.length upper
  rwa [List.length_map, show conjunction.length = 5 from rfl] at size

theorem length_lt_of_sep {sep : List Char} (upper : sep.map u.toUpper = conjunction)
    (part rest : List Char) : rest.length < (part ++ (sep ++ rest)).length := by
  rw [List.length_append, List.length_append, length_sep upper]
  omega

/-- At a separator. -/
theorem beforesFrom_sep (done : List Char) {sep : List Char}
    (upper : sep.map u.toUpper = conjunction) (rest : List Char) :
    beforesFrom u done 0 (sep ++ rest) = done :: beforesFrom u (done ++ sep) 0 rest := by
  have size := length_sep upper
  cases sep with
  | nil => cases size
  | cons c sep =>
      have starts : conjunction <+: (c :: (sep ++ rest)).map u.toUpper := by
        rw [← List.cons_append, List.map_append, upper]
        exact List.prefix_append _ _
      have four : sep.length = 4 := Nat.succ.inj size
      rw [List.cons_append, beforesFrom, if_pos starts, ← four, beforesFrom_skip,
        List.append_assoc, List.singleton_append]

/-- Induction along the search: the text ends, a separator stands here, or none does. -/
theorem beforesFrom_induction {P : List Char → List Char → Prop} (nil : ∀ done, P done [])
    (sep : ∀ done sep rest, sep.map u.toUpper = conjunction → P (done ++ sep) rest →
      P done (sep ++ rest))
    (char : ∀ done c cs, ¬ conjunction <+: (c :: cs).map u.toUpper → P (done ++ [c]) cs →
      P done (c :: cs))
    (done text : List Char) : P done text := by
  induction length : text.length using Nat.strong_induction_on generalizing done text with
  | _ n ih =>
      subst length
      cases text with
      | nil => exact nil done
      | cons c cs =>
          by_cases starts : conjunction <+: (c :: cs).map u.toUpper
          · obtain ⟨after, whole⟩ := starts
            obtain ⟨here, rest, split, upper, -⟩ := List.map_eq_append_iff.1 whole.symm
            rw [split]
            refine sep done here rest upper (ih rest.length ?_ _ _ rfl)
            rw [split]
            exact length_lt_of_sep upper [] rest
          · exact char done c cs starts (ih cs.length (Nat.lt_succ_self _) _ _ rfl)

theorem beforesFrom_char (done : List Char) {c : Char} {cs : List Char}
    (elsewhere : ¬ conjunction <+: (c :: cs).map u.toUpper) :
    beforesFrom u done 0 (c :: cs) = beforesFrom u (done ++ [c]) 0 cs := by
  rw [beforesFrom, if_neg elsewhere]

theorem mem_beforesFrom {done text before : List Char}
    (member : before ∈ beforesFrom u done 0 text) :
    ∃ sep rest, done ++ text = before ++ (sep ++ rest) ∧ sep.map u.toUpper = conjunction := by
  induction done, text using beforesFrom_induction (u := u) with
  | nil done => exact absurd member List.not_mem_nil
  | sep done sep rest upper ih =>
      rw [beforesFrom_sep done upper] at member
      rcases List.mem_cons.1 member with rfl | later
      · exact ⟨sep, rest, rfl, upper⟩
      · rw [← List.append_assoc]
        exact ih later
  | char done c cs elsewhere ih =>
      rw [beforesFrom_char done elsewhere] at member
      have found := ih member
      rwa [List.append_assoc, List.singleton_append] at found

/-! ## The search in the copy -/

/-- The bytes of the upper-cased text. -/
def upperSize (u : Unicode) (text : List Char) : Nat := (encode (text.map u.toUpper)).length

theorem upperSize_append (text text' : List Char) :
    upperSize u (text ++ text') = upperSize u text + upperSize u text' := by
  rw [upperSize, List.map_append, encode_append, List.length_append]
  rfl

theorem upperSize_sep {sep : List Char} (upper : sep.map u.toUpper = conjunction) :
    upperSize u sep = 5 := by
  rw [upperSize, upper, length_encode_conjunction]

theorem index_upper_cons (c : Char) (cs : List Char) :
    (encode ((c :: cs).map u.toUpper)).index (encode conjunction) =
      if conjunction <+: (c :: cs).map u.toUpper then some 0
      else ((encode (cs.map u.toUpper)).index (encode conjunction)).map (· + upperSize u [c]) := by
  have size : (u.toUpper c).utf8Size = upperSize u [c] := by
    rw [upperSize, List.map_singleton, encode_cons, encode_nil, List.append_nil,
      String.length_utf8EncodeChar]
  rw [← size, List.map_cons]
  exact index_encode_cons (by decide) (forall_mem_of_all (by decide)) _ _

theorem index_upper_sep {sep : List Char} (upper : sep.map u.toUpper = conjunction)
    (rest : List Char) :
    (encode ((sep ++ rest).map u.toUpper)).index (encode conjunction) = some 0 := by
  have starts : conjunction <+: (sep ++ rest).map u.toUpper := by
    rw [List.map_append, upper]
    exact List.prefix_append _ _
  cases sep with
  | nil => cases upper
  | cons c sep => rw [List.cons_append, index_upper_cons, ← List.cons_append, if_pos starts]

/-- Without a separator in the copy there is none in the text. -/
theorem beforesFrom_of_none {done text : List Char}
    (absent : (encode (text.map u.toUpper)).index (encode conjunction) = none) :
    beforesFrom u done 0 text = [] := by
  induction done, text using beforesFrom_induction (u := u) with
  | nil done => rfl
  | sep done sep rest upper _ =>
      rw [index_upper_sep upper] at absent
      cases absent
  | char done c cs elsewhere ih =>
      rw [index_upper_cons, if_neg elsewhere, Option.map_eq_none_iff] at absent
      rw [beforesFrom_char done elsewhere, ih absent]

/-- What is found in the copy is the next separator of the text. -/
theorem beforesFrom_of_some (done : List Char) {text : List Char} {i : Nat}
    (found : (encode (text.map u.toUpper)).index (encode conjunction) = some i) :
    ∃ part sep rest, text = part ++ (sep ++ rest) ∧ sep.map u.toUpper = conjunction ∧
      i = upperSize u part ∧
      beforesFrom u done 0 text =
        (done ++ part) :: beforesFrom u (done ++ (part ++ sep)) 0 rest := by
  induction done, text using beforesFrom_induction (u := u) generalizing i with
  | nil done => cases found
  | sep done sep rest upper _ =>
      rw [index_upper_sep upper] at found
      cases found
      exact ⟨[], sep, rest, rfl, upper, rfl, by
        rw [beforesFrom_sep done upper, List.append_nil, List.nil_append]⟩
  | char done c cs elsewhere ih =>
      rw [index_upper_cons, if_neg elsewhere] at found
      obtain ⟨j, later, rfl⟩ := Option.map_eq_some_iff.1 found
      obtain ⟨part, sep, rest, rfl, upper, rfl, next⟩ := ih later
      refine ⟨c :: part, sep, rest, rfl, upper, ?_, ?_⟩
      · rw [show c :: part = [c] ++ part from rfl, upperSize_append, Nat.add_comm]
      · rw [beforesFrom_char done elsewhere, next]
        simp only [List.append_assoc, List.cons_append, List.nil_append]

/-- The copy from the end of a separator on. -/
theorem drop_upper (part : List Char) {sep : List Char}
    (upper : sep.map u.toUpper = conjunction) (rest : List Char) :
    (encode ((part ++ (sep ++ rest)).map u.toUpper)).drop (upperSize u part + 5) =
      encode (rest.map u.toUpper) := by
  rw [← List.append_assoc, List.map_append, encode_append, ← upperSize_sep upper,
    ← upperSize_append, upperSize, List.drop_left]

/-! ## Cuts -/

/-- A text cut at given positions, each the first byte of a separator. -/
def cutAt (clause : GoString) (start : Nat) : List Nat → Option (List GoString)
  | [] => (clause.slice start clause.length).map fun part => [part]
  | k :: ks =>
      (clause.slice start k).bind fun part => (cutAt clause (k + 5) ks).map (part :: ·)

theorem splitFrom_eq_cutAt (clause : GoString) (done text : List Char) :
    splitFrom clause (encode (text.map u.toUpper)) (upperSize u done) =
      cutAt clause (upperSize u done) ((beforesFrom u done 0 text).map (upperSize u)) := by
  induction length : text.length using Nat.strong_induction_on generalizing done text with
  | _ n ih =>
      subst length
      cases found : (encode (text.map u.toUpper)).index (encode conjunction) with
      | none =>
          rw [splitFrom_of_none found, beforesFrom_of_none found]
          rfl
      | some i =>
          obtain ⟨part, sep, rest, rfl, upper, rfl, next⟩ := beforesFrom_of_some done found
          have shorter := length_lt_of_sep upper part rest
          have later := ih rest.length shorter (done ++ (part ++ sep)) rest rfl
          rw [upperSize_append, upperSize_append, upperSize_sep upper, ← Nat.add_assoc] at later
          rw [splitFrom_of_some found, drop_upper part upper, later, next, List.map_cons, cutAt,
            upperSize_append, Int.natCast_add]

/-- **The clause is cut at the lengths of the upper-cased texts before its separators.** -/
theorem splitAND_eq_cutAt (text : List Char) :
    splitAND u (encode text) = cutAt (encode text) 0 ((befores u text).map (upperSize u)) := by
  rw [splitAND, toUpper_encode]
  exact splitFrom_eq_cutAt (encode text) [] text

/-- Each position leaves room for the separator before it. -/
def Spaced (start : Nat) : List Nat → Prop
  | [] => True
  | k :: ks => start ≤ k ∧ Spaced (k + 5) ks

theorem Spaced.mono {start start' : Nat} {ks : List Nat} (spaced : Spaced start ks)
    (earlier : start' ≤ start) : Spaced start' ks := by
  cases ks with
  | nil => trivial
  | cons k ks => exact ⟨earlier.trans spaced.1, spaced.2⟩

/-- The lengths are spaced, in any copy that keeps separators five bytes long. -/
theorem spaced_beforesFrom {g : Char → Char}
    (five : ∀ sep : List Char, sep.map u.toUpper = conjunction → (encode (sep.map g)).length = 5)
    (done text : List Char) :
    Spaced (encode (done.map g)).length
      ((beforesFrom u done 0 text).map fun before => (encode (before.map g)).length) := by
  induction done, text using beforesFrom_induction (u := u) with
  | nil done => trivial
  | sep done sep rest upper ih =>
      rw [beforesFrom_sep done upper]
      refine ⟨Nat.le_refl _, ?_⟩
      rwa [List.map_append, encode_append, List.length_append, five sep upper] at ih
  | char done c cs elsewhere ih =>
      rw [beforesFrom_char done elsewhere]
      refine ih.mono ?_
      rw [List.map_append, encode_append, List.length_append]
      exact Nat.le_add_right _ _

theorem slice_isSome_iff {s : GoString} {i j : Nat} :
    (s.slice i j).isSome ↔ i ≤ j ∧ j ≤ s.length := by
  rw [slice]
  split_ifs with bounds
  · simp only [Option.isSome_some, true_iff]
    omega
  · simp only [Option.isSome_none, Bool.false_eq_true, false_iff]
    omega

/-- **A cut is in range exactly if what it cuts out is.** -/
theorem cutAt_isSome_iff (clause : GoString) {start : Nat} {ks : List Nat}
    (spaced : Spaced start ks) :
    (cutAt clause start ks).isSome ↔
      start ≤ clause.length ∧ ∀ k ∈ ks, k + 5 ≤ clause.length := by
  induction ks generalizing start with
  | nil =>
      rw [cutAt, Option.isSome_map, slice_isSome_iff]
      simp
  | cons k ks ih =>
      have later := ih spaced.2
      have order := spaced.1
      rw [List.forall_mem_cons, ← later]
      cases cut : clause.slice start k with
      | none =>
          have outside : ¬ (clause.slice start k).isSome := by simp [cut]
          rw [slice_isSome_iff] at outside
          simp only [cutAt, cut, Option.bind_none, Option.isSome_none, Bool.false_eq_true,
            false_iff]
          rintro ⟨-, rest⟩
          have := (later.1 rest).1
          omega
      | some part =>
          have inside : (clause.slice start k).isSome := by simp [cut]
          rw [slice_isSome_iff] at inside
          simp only [cutAt, cut, Option.bind_some, Option.isSome_map]
          exact ⟨fun rest => ⟨by omega, rest⟩, fun all => all.2⟩

theorem cutAt_ne_nil {clause : GoString} {start : Nat} {ks : List Nat} :
    cutAt clause start ks ≠ some [] := by
  cases ks with
  | nil =>
      intro cut
      obtain ⟨part, -, empty⟩ := Option.map_eq_some_iff.1 cut
      cases empty
  | cons k ks =>
      intro cut
      obtain ⟨part, -, rest⟩ := Option.bind_eq_some_iff.1 cut
      obtain ⟨parts, -, empty⟩ := Option.map_eq_some_iff.1 rest
      cases empty

/-- What a turn of the cut leaves. -/
theorem cutAt_cons {clause : GoString} {start k : Nat} {ks : List Nat} {part : GoString}
    {parts : List GoString} (cut : cutAt clause start (k :: ks) = some (part :: parts)) :
    start + part.length = k ∧ clause.drop start = part ++ clause.drop k ∧
      cutAt clause (k + 5) ks = some parts := by
  obtain ⟨part', here, rest⟩ := Option.bind_eq_some_iff.1 cut
  obtain ⟨parts', later, same⟩ := Option.map_eq_some_iff.1 rest
  cases same
  have inside : (clause.slice start k).isSome := by simp [here]
  rw [slice_isSome_iff] at inside
  have text := eq_of_slice here
  have size : part.length = k - start := by
    rw [text, List.length_take, List.length_drop]
    omega
  refine ⟨by omega, ?_, later⟩
  have whole := List.take_append_drop (k - start) (clause.drop start)
  rw [← text, List.drop_drop, Nat.add_sub_cancel' inside.1] at whole
  exact whole.symm

theorem cutAt_nil {clause : GoString} {start : Nat} {parts : List GoString}
    (cut : cutAt clause start [] = some parts) : parts = [clause.drop start] := by
  obtain ⟨part, here, rfl⟩ := Option.map_eq_some_iff.1 cut
  rw [eq_of_slice here, ← List.length_drop, List.take_length]

/-- From the fragments the positions can be told. -/
theorem cutAt_inj {clause : GoString} {start : Nat} {ks ks' : List Nat} {parts : List GoString}
    (cut : cutAt clause start ks = some parts) (cut' : cutAt clause start ks' = some parts) :
    ks = ks' := by
  induction ks generalizing start ks' parts with
  | nil =>
      obtain rfl := cutAt_nil cut
      cases ks' with
      | nil => rfl
      | cons k' ks' => exact absurd (cutAt_cons cut').2.2 cutAt_ne_nil
  | cons k ks ih =>
      cases parts with
      | nil => exact absurd cut cutAt_ne_nil
      | cons part parts =>
          obtain ⟨here, -, later⟩ := cutAt_cons cut
          cases ks' with
          | nil =>
              obtain ⟨-, rfl⟩ := List.cons.inj (cutAt_nil cut')
              exact absurd later cutAt_ne_nil
          | cons k' ks' =>
              obtain ⟨here', -, later'⟩ := cutAt_cons cut'
              obtain rfl : k = k' := here.symm.trans here'
              rw [ih later later']

/-! ## What stands between the fragments -/

/-- The fragments with the separators put back between them. -/
def rejoin {α : Type} : List (List α) → List (List α) → List α
  | [], _ => []
  | part :: _, [] => part
  | part :: parts, sep :: seps => part ++ (sep ++ rejoin parts seps)

/-- Five bytes that upper-case to a separator. -/
def IsSeparator (u : Unicode) (sep : GoString) : Prop :=
  sep.length = 5 ∧ sep.toUpper u = ofString " AND "

instance (u : Unicode) (sep : GoString) : Decidable (IsSeparator u sep) :=
  inferInstanceAs (Decidable (_ ∧ _))

/-- The fragments and separators between them are the clause, byte for byte. -/
def Rejoins (u : Unicode) (clause : GoString) : Prop :=
  ∃ parts seps, splitAND u clause = some parts ∧ parts.length = seps.length + 1 ∧
    (∀ sep ∈ seps, IsSeparator u sep) ∧ rejoin parts seps = clause

/-- Five bytes of the clause. -/
def five (clause : GoString) (k : Nat) : GoString := (clause.drop k).take 5

theorem length_of_cutAt {clause : GoString} {start : Nat} {ks : List Nat} {parts : List GoString}
    (cut : cutAt clause start ks = some parts) : parts.length = ks.length + 1 := by
  induction ks generalizing start parts with
  | nil =>
      rw [cutAt_nil cut]
      rfl
  | cons k ks ih =>
      cases parts with
      | nil => exact absurd cut cutAt_ne_nil
      | cons part parts =>
          rw [List.length_cons, List.length_cons, ih (cutAt_cons cut).2.2]

/-- Only what the cut left out can be put back. -/
theorem rejoin_eq_iff {clause : GoString} {start : Nat} {ks : List Nat} {parts : List GoString}
    (cut : cutAt clause start ks = some parts) (inside : ∀ k ∈ ks, k + 5 ≤ clause.length)
    {seps : List GoString} (count : parts.length = seps.length + 1)
    (sizes : ∀ sep ∈ seps, sep.length = 5) :
    rejoin parts seps = clause.drop start ↔ seps = ks.map (five clause) := by
  induction ks generalizing start parts seps with
  | nil =>
      obtain rfl := cutAt_nil cut
      obtain rfl := List.length_eq_zero_iff.1 (Nat.succ.inj count).symm
      exact iff_of_true rfl rfl
  | cons k ks ih =>
      cases parts with
      | nil => exact absurd cut cutAt_ne_nil
      | cons part parts =>
          obtain ⟨-, here, later⟩ := cutAt_cons cut
          have total := length_of_cutAt later
          cases seps with
          | nil =>
              rw [List.length_cons, List.length_nil] at count
              omega
          | cons sep seps =>
              rw [List.forall_mem_cons] at inside sizes
              have gap : clause.drop k = five clause k ++ clause.drop (k + 5) := by
                rw [five, ← List.drop_drop, List.take_append_drop]
              have size : sep.length = (five clause k).length := by
                rw [sizes.1, five, List.length_take, List.length_drop]
                omega
              rw [rejoin, here, gap, List.append_cancel_left_eq, List.map_cons, List.cons.injEq,
                ← ih later inside.2 (Nat.succ.inj count) sizes.2]
              refine ⟨fun same => List.append_inj same size, ?_⟩
              rintro ⟨rfl, rest⟩
              rw [rest]

theorem spaced_upperSize (text : List Char) : Spaced 0 ((befores u text).map (upperSize u)) :=
  spaced_beforesFrom (g := u.toUpper)
    (fun sep upper => by rw [upper, length_encode_conjunction]) [] text

/-- **Fragments can be rejoined exactly if the clause has a separator wherever it is cut.** -/
theorem rejoins_iff (text : List Char) :
    Rejoins u (encode text) ↔
      ∀ before ∈ befores u text, IsSeparator u (five (encode text) (upperSize u before)) := by
  have range := cutAt_isSome_iff (encode text) (spaced_upperSize (u := u) text)
  rw [Option.isSome_iff_exists] at range
  simp only [Rejoins, splitAND_eq_cutAt]
  constructor
  · rintro ⟨parts, seps, cut, count, separators, joined⟩
    have same := (rejoin_eq_iff cut (range.1 ⟨parts, cut⟩).2 count
      fun sep member => (separators sep member).1).1 joined
    rw [same, List.map_map] at separators
    exact fun before member => separators _ (List.mem_map_of_mem member)
  · intro separators
    have inside : ∀ k ∈ (befores u text).map (upperSize u), k + 5 ≤ (encode text).length := by
      rw [List.forall_mem_map]
      intro before member
      have size := (separators before member).1
      rw [five, List.length_take, List.length_drop] at size
      omega
    have gaps : ∀ sep ∈ ((befores u text).map (upperSize u)).map (five (encode text)),
        IsSeparator u sep := by
      rw [List.map_map, List.forall_mem_map]
      exact separators
    obtain ⟨parts, cut⟩ := range.2 ⟨Nat.zero_le _, inside⟩
    have count := length_of_cutAt cut
    rw [← List.length_map (five (encode text))] at count
    exact ⟨parts, _, cut, count, gaps,
      (rejoin_eq_iff cut inside count fun sep member => (gaps sep member).1).2 rfl⟩

/-- **The clause is cut at its own separators exactly if the text before each keeps its
length**, where separators are five bytes long. -/
theorem splitAND_own_iff (size : ∀ sep : List Char, sep.map u.toUpper = conjunction →
    (encode sep).length = 5) (text : List Char) :
    splitAND u (encode text) =
        cutAt (encode text) 0 ((befores u text).map fun before => (encode before).length) ↔
      ∀ before ∈ befores u text, upperSize u before = (encode before).length := by
  have spaced : Spaced 0 ((befores u text).map fun before => (encode before).length) := by
    have general := spaced_beforesFrom (u := u) (g := id)
      (fun sep upper => by rw [List.map_id, size sep upper]) [] text
    simp only [List.map_id] at general
    exact general
  have own : (cutAt (encode text) 0
      ((befores u text).map fun before => (encode before).length)).isSome := by
    rw [cutAt_isSome_iff _ spaced]
    refine ⟨Nat.zero_le _, List.forall_mem_map.2 fun before member => ?_⟩
    obtain ⟨sep, rest, whole, upper⟩ := mem_beforesFrom member
    rw [List.nil_append] at whole
    rw [whole, encode_append, encode_append, List.length_append, List.length_append,
      size sep upper]
    omega
  obtain ⟨parts, own⟩ := Option.isSome_iff_exists.1 own
  rw [splitAND_eq_cutAt, ← List.map_inj_left]
  refine ⟨fun same => cutAt_inj (same.trans own) own, fun same => ?_⟩
  rw [same]

/-! ## No other slice out of range -/

/-- An ending found in the copy has as many characters in the fragment. -/
theorem parseNullTest_ne_panics {part : GoString} {suffix : List Char} (nonempty : suffix ≠ [])
    (ascii : ∀ c ∈ suffix, c.toNat < 128) (op : PredOp)
    (ends : (part.toUpper u).hasSuffix (encode suffix) = true) :
    parseNullTest u part suffix.length op ≠ .error .panics := by
  have long : suffix.length ≤ part.length := by
    obtain ⟨front, whole⟩ := List.isSuffixOf_iff_suffix.1 ends
    rw [toUpper_eq_encode, ← List.append_nil (encode suffix)] at whole
    obtain ⟨ps, qs, copy, -⟩ := encode_eq_append nonempty ascii whole.symm
    have count := congrArg List.length copy
    have bound := length_runes_le part
    simp only [List.length_map, List.length_append] at count
    omega
  have bounds : (0 : Int) ≤ 0 ∧ (0 : Int) ≤ part.length - suffix.length ∧
      (part.length - suffix.length : Int) ≤ part.length := by
    omega
  rw [parseNullTest, slice, if_pos bounds]
  dsimp only
  split
  · rintro ⟨⟩
  · rintro ⟨⟩

theorem parsePart_ne_panics (part : GoString) (args : List Value) :
    parsePart u part args ≠ .error .panics := by
  have nullTest (suffix : List Char) (op : PredOp) (nonempty : suffix ≠ [])
      (ascii : ∀ c ∈ suffix, c.toNat < 128)
      (ends : ((part.trimSpace u).toUpper u).hasSuffix (encode suffix) = true) :
      (parseNullTest u (part.trimSpace u) suffix.length op).map (fun p => (p, args)) ≠
        .error .panics := by
    have inside := parseNullTest_ne_panics nonempty ascii op ends
    cases tested : parseNullTest u (part.trimSpace u) suffix.length op with
    | error e =>
        rw [tested] at inside
        rintro ⟨⟩
        exact inside rfl
    | ok p => rintro ⟨⟩
  simp only [parsePart]
  split
  · next ends =>
      exact nullTest " IS NOT NULL".toList .isNotNull (by decide)
        (forall_mem_of_all (by decide)) ends
  · split
    · next ends =>
        exact nullTest " IS NULL".toList .isNull (by decide)
          (forall_mem_of_all (by decide)) ends
    · split <;> rintro ⟨⟩

theorem parseParts_ne_panics (parts : List GoString) (args : List Value) :
    parseParts u parts args ≠ .error .panics := by
  induction parts generalizing args with
  | nil => rintro ⟨⟩
  | cons part parts ih =>
      have first := parsePart_ne_panics (u := u) part args
      rw [parseParts]
      split
      · next e failed =>
          rw [failed] at first
          rintro ⟨⟩
          exact first rfl
      · next p rest _ =>
          have later := ih rest
          cases parsed : parseParts u parts rest with
          | error e =>
              rw [parsed] at later
              rintro ⟨⟩
              exact later rfl
          | ok result => rintro ⟨⟩

theorem parseWhere_panics_iff_split (clause : GoString) (args : List Value) :
    parseWhere u clause args = .error .panics ↔ splitAND u (clause.trimSpace u) = none := by
  simp only [parseWhere]
  cases split : splitAND u (clause.trimSpace u) with
  | none =>
      refine iff_of_true (if_neg fun empty => ?_) rfl
      rw [empty, show ([] : GoString) = encode [] from rfl, splitAND_eq_cutAt] at split
      cases split
  | some parts =>
      refine iff_of_false ?_ (Option.some_ne_none parts)
      have inside := parseParts_ne_panics (u := u) parts args
      dsimp only
      split_ifs
      · rintro ⟨⟩
      · split
        · next e failed =>
            rw [failed] at inside
            rintro ⟨⟩
            exact inside rfl
        · rintro ⟨⟩
        · rintro ⟨⟩

/-- **`ParseWhere` panics exactly if a text before a separator grows, when it is upper-cased,
by more than what stands after the separator.** -/
theorem parseWhere_panics_iff (text : List Char) (args : List Value) :
    parseWhere u (encode text) args = .error .panics ↔
      ∃ before ∈ befores u (trimmed u text),
        (encode (trimmed u text)).length < upperSize u before + 5 := by
  have range := cutAt_isSome_iff (encode (trimmed u text))
    (spaced_upperSize (u := u) (trimmed u text))
  rw [parseWhere_panics_iff_split, trimSpace_encode, splitAND_eq_cutAt,
    ← Option.not_isSome_iff_eq_none, range]
  simp only [Nat.zero_le, true_and, List.forall_mem_map, not_forall, Nat.not_le, exists_prop]

/-! ## Steady clauses -/

/-- A text cut at separators: the fragments and the separators between them. -/
inductive Cut (u : Unicode) : List Char → List (List Char) → List (List Char) → Prop where
  | last (text : List Char) : Cut u text [text] []
  | more {part sep rest : List Char} {parts seps : List (List Char)} :
      sep.map u.toUpper = conjunction → Cut u rest parts seps →
      Cut u (part ++ (sep ++ rest)) (part :: parts) (sep :: seps)

/-- The bytes after `done` are `ts`; the loop has come to the end of `done`. -/
theorem splitFrom_cut (done ts : List Char) (steady : ∀ c ∈ ts, Steady u c) :
    ∃ parts seps, Cut u ts parts seps ∧
      splitFrom (encode (done ++ ts)) (encode (ts.map u.toUpper)) (encode done).length =
        some (parts.map encode) := by
  induction length : ts.length using Nat.strong_induction_on generalizing done ts with
  | _ n ih =>
      subst length
      cases found : (encode (ts.map u.toUpper)).index (encode conjunction) with
      | none =>
          exact ⟨[ts], [], .last ts, splitFrom_last found⟩
      | some i =>
          obtain ⟨part, sep, rest, rfl, upper, position, -⟩ := beforesFrom_of_some done found
          simp only [List.forall_mem_append] at steady
          obtain ⟨steadyPart, steadySep, steadyRest⟩ := steady
          have remaining := drop_upper part upper rest
          rw [← position] at remaining
          rw [upperSize, length_encode_toUpper steadyPart] at position
          have sepLength : (encode sep).length = 5 := by
            rw [← length_encode_toUpper steadySep, upper, length_encode_conjunction]
          have shorter := length_lt_of_sep upper part rest
          obtain ⟨parts, seps, cut, later⟩ :=
            ih rest.length shorter (done ++ (part ++ sep)) rest steadyRest rfl
          refine ⟨part :: parts, sep :: seps, .more upper cut, ?_⟩
          rw [position] at found remaining
          rw [splitFrom_turn found sepLength, remaining, later]
          rfl

/-- **A steady clause is cut between its characters.** -/
theorem splitAND_cut {text : List Char} (steady : ∀ c ∈ text, Steady u c) :
    ∃ parts seps, Cut u text parts seps ∧
      splitAND u (encode text) = some (parts.map encode) := by
  have loop := splitFrom_cut [] text steady
  rwa [encode_nil, List.length_nil, List.nil_append, ← toUpper_encode] at loop

end Tether.Shape
