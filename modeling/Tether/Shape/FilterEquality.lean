/-
# Tether.Shape.FilterEquality — the equality of filters read from both sides

`valuesEqual` looks at the Go type of its left argument first.  Over NULL, integers,
integer-valued `float64`s, texts and byte slices it is an equality but for two things.

* A byte slice on the left is compared, as a text, with the `fmt.Sprint` of the right
  side.  On the right it is printed itself, as a list of numbers in brackets.  So no byte
  slice is equal to itself, and one that spells a value out is equal to it from the left
  only.
* `numEqualFloat` has no case for `int32`: with the `float64` on the left the two are
  compared by their texts, with the `int32` on the left by their numbers.

`Misread a b` are the pairs that are equal in this order only, and there are no others
(`valuesEqual_sane_iff`).
-/
import Tether.Lib.Joined
import Tether.Lib.Utf8
import Tether.Shape.Filter

namespace Tether.Shape

open Tether.Lib Tether.Wal

set_option autoImplicit false

/-! ## The values compared -/

/-- Integers, and numbers of the format with an integral value. -/
def Integral : Value → Prop
  | .int _ | .int32 _ | .int64 _ => True
  | .float64 x => ∃ z : ℤ, x.value? = some (z : ℚ)
  | _ => False

/-- The types a filter is asked to compare. -/
def Comparable : Value → Prop
  | .null | .string _ | .bytes _ => True
  | v => Integral v

/-- Pairs that are equal in this order and not in the other. -/
inductive Misread : Value → Value → Prop
  | bytes {b : List UInt8} {v : Value} (present : v ≠ .null)
      (spelled : GoString.ofString (sprint v) = b) : Misread (.bytes b) v
  | string (b : List UInt8) : Misread (.string (sprint (.bytes b))) (.bytes b)
  | int32 {n : Int32} {x : Float64} (same : x.value? = some (n.toInt : ℚ))
      (printed : 10 ^ 6 ≤ n.toInt.natAbs ∨ x = .negZero) : Misread (.int32 n) (.float64 x)

theorem comparable_cases {v : Value} (comparable : Comparable v) :
    v = .null ∨ (∃ s, v = .string s) ∨ (∃ b, v = .bytes b) ∨ Integral v := by
  cases v with
  | null => exact Or.inl rfl
  | string s => exact Or.inr (Or.inl ⟨s, rfl⟩)
  | bytes b => exact Or.inr (Or.inr (Or.inl ⟨b, rfl⟩))
  | _ => exact Or.inr (Or.inr (Or.inr comparable))

/-! ## Texts -/

theorem toList_sprint_bytes (b : List UInt8) :
    (sprint (.bytes b)).toList =
      '[' :: ([' '].intercalate (b.map fun byte => byte.toNat.repr.toList) ++ [']']) := by
  simp [sprint, String.toList_append, String.toList_intercalate, List.map_map, Function.comp_def]

/-- Every byte is printed as a digit or more, and the brackets come on top. -/
theorem length_lt_sprint_bytes (b : List UInt8) :
    b.length < (GoString.ofString (sprint (.bytes b))).length := by
  have printed : b.length ≤
      ([' '].intercalate (b.map fun byte => byte.toNat.repr.toList)).length := by
    cases b with
    | nil => exact Nat.zero_le _
    | cons byte bs =>
        -- the blanks between the bytes are as many as the bytes but one
        have : 0 < byte.toNat.repr.toList.length := by
          rw [Nat.toList_repr]
          exact Nat.length_toDigits_pos
        rw [List.map_cons, length_join, List.length_map, List.length_cons]
        omega
  have characters := GoString.length_le_encode (sprint (.bytes b)).toList
  rw [← GoString.ofString_eq_encode, toList_sprint_bytes, List.length_cons,
    List.length_append] at characters
  omega

theorem sprint_bytes_ne (b : List UInt8) : GoString.ofString (sprint (.bytes b)) ≠ b := by
  intro same
  have longer := length_lt_sprint_bytes b
  rw [same] at longer
  omega

theorem numeric_sprint {v : Value} (number : Integral v) :
    ∀ c ∈ (sprint v).toList, Float64.numeric c := by
  cases v with
  | int n | int32 n | int64 n => exact Float64.numeric_intRepr _
  | float64 x =>
      obtain ⟨z, value⟩ := number
      rw [sprint, String.toList_ofList]
      exact Float64.numeric_formatG value
  | _ => cases number

/-- A number is not printed like a byte slice. -/
theorem sprint_ne_bytes {v : Value} (number : Integral v) (b : List UInt8) :
    sprint v ≠ sprint (.bytes b) := by
  intro same
  have bracket : '[' ∈ (sprint v).toList := by
    rw [same, toList_sprint_bytes]
    exact List.mem_cons_self
  exact absurd (numeric_sprint number '[' bracket) (by decide)

/-! ## One type on the left -/

theorem valuesEqual_null_symm (v : Value) : valuesEqual .null v = valuesEqual v .null := by
  cases v <;> rfl

theorem valuesEqual_bytes_iff (b : List UInt8) (v : Value) :
    valuesEqual (.bytes b) v = true ↔ v ≠ .null ∧ GoString.ofString (sprint v) = b := by
  cases v <;> simp [valuesEqual, GoString.toList_toByteArray]

theorem valuesEqual_string_iff (s : String) (v : Value) :
    valuesEqual (.string s) v = true ↔ v ≠ .null ∧ sprint v = s := by
  cases v <;> simp [valuesEqual]

theorem valuesEqual_integral_bytes {v : Value} (number : Integral v) (b : List UInt8) :
    valuesEqual v (.bytes b) = false := by
  have differ := sprint_ne_bytes number b
  cases v with
  | int n | int64 n => exact beq_false_of_ne differ
  | int32 n =>
      refine beq_false_of_ne ?_
      rwa [sprint, Int32.toInt_toInt64]
  | float64 x => exact beq_false_of_ne differ
  | _ => cases number

theorem valuesEqual_integral_string {v : Value} (number : Integral v) (s : String) :
    valuesEqual v (.string s) = valuesEqual (.string s) v := by
  cases v with
  | int n | int64 n | float64 x => rfl
  | int32 n =>
      show (n.toInt64.toInt.repr == s) = (n.toInt.repr == s)
      rw [Int32.toInt_toInt64]
  | _ => cases number

/-! ## An `int32` and a `float64` -/

section Int32

variable {x : Float64} {z : ℤ} (integral : x.value? = some (z : ℚ)) (n : Int32)

include integral

theorem valuesEqual_int32_float_iff :
    valuesEqual (.int32 n) (.float64 x) = true ↔ z = n.toInt := by
  have small : n.toInt64.toInt.natAbs < 2 ^ 53 := by
    have := n.toInt_lt
    have := n.le_toInt
    rw [Int32.toInt_toInt64]
    omega
  have value : (Float64.ofInt64 n.toInt64).value? = some (n.toInt : ℚ) := by
    show some (Float64.nearestInt n.toInt64.toInt) = _
    rw [Float64.nearestInt_of_lt small, Int32.toInt_toInt64]
  show (Float64.ofInt64 n.toInt64).eq x = true ↔ _
  rw [Float64.eq_of_finite value, decide_eq_true_iff, integral, Option.some.injEq, Int.cast_inj]

theorem valuesEqual_float_int32_iff :
    valuesEqual (.float64 x) (.int32 n) = true ↔
      z = n.toInt ∧ z.natAbs < 10 ^ 6 ∧ x ≠ .negZero := by
  show (String.ofList x.formatG == n.toInt.repr) = true ↔ _
  rw [beq_iff_eq, ← String.toList_inj, String.toList_ofList]
  exact Float64.formatG_eq_intRepr_iff integral n.toInt

end Int32

/-! ## Both orders -/

variable {a b : Value}

theorem Misread.one_sided (misread : Misread a b) (comparable : Comparable b) :
    valuesEqual a b = true ∧ valuesEqual b a = false := by
  cases misread with
  | @bytes c _ present spelled =>
      refine ⟨(valuesEqual_bytes_iff c b).2 ⟨present, spelled⟩, Bool.eq_false_iff.2 fun back => ?_⟩
      rcases comparable_cases comparable with rfl | ⟨s, rfl⟩ | ⟨d, rfl⟩ | number
      · exact present rfl
      · obtain ⟨-, rfl⟩ := (valuesEqual_string_iff s (.bytes c)).1 back
        exact sprint_bytes_ne c spelled
      · -- each slice is the printed form of the other, and longer than it
        have printed : GoString.ofString (sprint (.bytes c)) = d :=
          ((valuesEqual_bytes_iff d _).1 back).2
        have longer := length_lt_sprint_bytes c
        have longer' := length_lt_sprint_bytes d
        rw [printed] at longer
        rw [spelled] at longer'
        omega
      · rw [valuesEqual_integral_bytes number] at back
        cases back
  | string c =>
      have printed := (valuesEqual_string_iff (sprint (.bytes c)) (.bytes c)).2 ⟨by rintro ⟨⟩, rfl⟩
      refine ⟨printed, Bool.eq_false_iff.2 fun back => ?_⟩
      exact sprint_bytes_ne c ((valuesEqual_bytes_iff c _).1 back).2
  | @int32 n x same printed =>
      refine ⟨(valuesEqual_int32_float_iff same n).2 rfl, Bool.eq_false_iff.2 fun back => ?_⟩
      obtain ⟨-, small, positive⟩ := (valuesEqual_float_int32_iff same n).1 back
      rcases printed with large | zero
      · omega
      · exact positive zero

theorem ne_of_one_sided (equal : valuesEqual a b = true) (differ : valuesEqual b a = false) :
    valuesEqual a b ≠ valuesEqual b a := by
  rw [equal, differ]
  decide

/-- Numbers are compared by value in both orders but for one pair of types. -/
theorem misread_of_integral (left : Integral a) (right : Integral b)
    (equal : valuesEqual a b = true) (differ : valuesEqual b a = false) : Misread a b := by
  have asymmetric := ne_of_one_sided equal differ
  cases a with
  | int n | int64 n =>
      cases b with
      | int m | int32 m | int64 m => exact absurd BEq.comm asymmetric
      | float64 x =>
          obtain ⟨z, value⟩ := right
          exact absurd (Float64.eq_symm (x := .ofInt64 n) rfl value) asymmetric
      | _ => cases right
  | int32 n =>
      cases b with
      | int m | int32 m | int64 m => exact absurd BEq.comm asymmetric
      | float64 x =>
          obtain ⟨z, value⟩ := right
          obtain rfl := (valuesEqual_int32_float_iff value n).1 equal
          have printed := (valuesEqual_float_int32_iff value n).not.1 (by simp [differ])
          refine .int32 value ?_
          by_cases large : 10 ^ 6 ≤ n.toInt.natAbs
          · exact Or.inl large
          · refine Or.inr (not_ne_iff.1 fun positive => printed ⟨rfl, ?_, positive⟩)
            omega
      | _ => cases right
  | float64 x =>
      obtain ⟨z, value⟩ := left
      cases b with
      | int m | int64 m => exact absurd (Float64.eq_symm value (y := .ofInt64 m) rfl) asymmetric
      | int32 m =>
          -- equal texts are texts of equal numbers
          obtain ⟨number, -, -⟩ := (valuesEqual_float_int32_iff value m).1 equal
          rw [(valuesEqual_int32_float_iff value m).2 number] at differ
          cases differ
      | float64 y =>
          obtain ⟨w, value'⟩ := right
          exact absurd (Float64.eq_symm value value') asymmetric
      | _ => cases right
  | _ => cases left

theorem misread_of_one_sided (left : Comparable a) (right : Comparable b)
    (equal : valuesEqual a b = true) (differ : valuesEqual b a = false) : Misread a b := by
  have asymmetric := ne_of_one_sided equal differ
  rcases comparable_cases left with rfl | ⟨s, rfl⟩ | ⟨c, rfl⟩ | number
  · exact absurd (valuesEqual_null_symm b) asymmetric
  · rcases comparable_cases right with rfl | ⟨t, rfl⟩ | ⟨d, rfl⟩ | number
    · exact absurd (valuesEqual_null_symm _).symm asymmetric
    · exact absurd BEq.comm asymmetric
    · obtain ⟨-, rfl⟩ := (valuesEqual_string_iff s (.bytes d)).1 equal
      exact .string d
    · exact absurd (valuesEqual_integral_string number s).symm asymmetric
  · obtain ⟨present, spelled⟩ := (valuesEqual_bytes_iff c b).1 equal
    exact .bytes present spelled
  · rcases comparable_cases right with rfl | ⟨t, rfl⟩ | ⟨d, rfl⟩ | number'
    · exact absurd (valuesEqual_null_symm a).symm asymmetric
    · exact absurd (valuesEqual_integral_string number t) asymmetric
    · rw [valuesEqual_integral_bytes number] at equal
      cases equal
    · exact misread_of_integral number number' equal differ

theorem misread_iff (left : Comparable a) (right : Comparable b) :
    Misread a b ↔ valuesEqual a b = true ∧ valuesEqual b a = false :=
  ⟨fun misread => misread.one_sided right, fun one => misread_of_one_sided left right one.1 one.2⟩

theorem valuesEqual_self_iff (comparable : Comparable a) :
    valuesEqual a a = true ↔ ∀ b, a ≠ .bytes b := by
  cases a with
  | null => exact iff_of_true rfl fun b => by rintro ⟨⟩
  | string s => exact iff_of_true (beq_self_eq_true s) fun b => by rintro ⟨⟩
  | int n | int64 n => exact iff_of_true (beq_self_eq_true n) fun b => by rintro ⟨⟩
  | int32 n => exact iff_of_true (beq_self_eq_true n.toInt64) fun b => by rintro ⟨⟩
  | float64 x =>
      obtain ⟨z, value⟩ := comparable
      have same : x.eq x = true := by
        rw [Float64.eq_of_finite value, decide_eq_true_iff, value]
      exact iff_of_true same fun b => by rintro ⟨⟩
  | bytes b =>
      refine iff_of_false (fun same => ?_) fun free => free b rfl
      exact sprint_bytes_ne b ((valuesEqual_bytes_iff b _).1 same).2
  | bool _ | other _ _ => cases comparable

/-- **Reflexivity and symmetry.**  Both conditions are exact: byte slices are the values that
differ from themselves, and the order matters for the pairs of `Misread`. -/
theorem valuesEqual_sane_iff (a b : Value) (left : Comparable a) (right : Comparable b) :
    (valuesEqual a a = true ↔ ∀ bytes, a ≠ .bytes bytes) ∧
      (valuesEqual a b = valuesEqual b a ↔ ¬ Misread a b ∧ ¬ Misread b a) := by
  refine ⟨valuesEqual_self_iff left, ?_⟩
  rw [misread_iff left right, misread_iff right left]
  cases valuesEqual a b <;> cases valuesEqual b a <;> decide

/-- A small number is equal to itself, and to its other form in both orders. -/
theorem valuesEqual_sane_small :
    valuesEqual (.int32 5) (.int32 5) = true ∧
      valuesEqual (.int32 5) (.float64 (.ofInt64 5)) =
        valuesEqual (.float64 (.ofInt64 5)) (.int32 5) := by
  have value : (Float64.ofInt64 5).value? = some ((5 : ℤ) : ℚ) := by decide +kernel
  obtain ⟨reflexive, symmetric⟩ :=
    valuesEqual_sane_iff (.int32 5) (.float64 (.ofInt64 5)) trivial ⟨5, value⟩
  refine ⟨reflexive.2 fun b => by rintro ⟨⟩, symmetric.2 ⟨?_, by rintro ⟨⟩⟩⟩
  rintro (_ | _ | ⟨-, large | zero⟩)
  · exact absurd large (by decide)
  · cases zero

/-- `[]byte("x")` differs from itself; `[]byte("7")` is equal to `7`, the text `[120]` to
`[]byte("x")`, and the `int32`s `1000000` and `0` to the `float64`s `1e+06` and `-0`, in this
order only. -/
theorem valuesEqual_not_sane :
    Comparable (.float64 (.ofInt64 1000000)) ∧ Comparable (.float64 .negZero) ∧
      valuesEqual (.bytes [120]) (.bytes [120]) = false ∧
      valuesEqual (.bytes [55]) (.int 7) = true ∧
      valuesEqual (.int 7) (.bytes [55]) = false ∧
      valuesEqual (.string "[120]") (.bytes [120]) = true ∧
      valuesEqual (.bytes [120]) (.string "[120]") = false ∧
      valuesEqual (.int32 1000000) (.float64 (.ofInt64 1000000)) = true ∧
      valuesEqual (.float64 (.ofInt64 1000000)) (.int32 1000000) = false ∧
      valuesEqual (.int32 0) (.float64 .negZero) = true ∧
      valuesEqual (.float64 .negZero) (.int32 0) = false :=
  ⟨⟨1000000, by decide +kernel⟩, ⟨0, by decide +kernel⟩, by decide +kernel⟩

/-- A predicate that asks for the very value of its column matches unless the value is a
byte slice. -/
theorem Predicate.match_own_value_iff {row : Row} {col : String} (comparable : Comparable a)
    (found : row.lookup col = some a) :
    (⟨col, .eq, a⟩ : Predicate).match row = true ↔ ∀ bytes, a ≠ .bytes bytes := by
  have compared : (⟨col, .eq, a⟩ : Predicate).match row = valuesEqual a a := by
    simp only [Predicate.match, found]
  rw [compared, valuesEqual_self_iff comparable]

end Tether.Shape
