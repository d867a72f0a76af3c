/-
# Tether.Lib.Float64 — binary64 numbers, nearest integers and the shortest `%g` text

A finite binary64 number is its exact rational value together with the proof that
the format holds it (`Representable`), so a `Float64` that the format does not
have cannot be built.  Two operations are given:

* `ofInt64`: the nearest number to a 64-bit integer, ties to even;
* `formatG`: the shortest decimal text that reads back as the number, in plain
  notation for decimal exponents `-4 .. 5` and in exponent notation outside.

The shortest decimal is searched digit by digit (`shortest`): `k` digits suffice
when the truncation to `k` digits, or its successor, lies inside the interval of
reals that round to the number.

Integers are the case the library settles: below `10 ^ 6` the text is the decimal
numeral (`formatG_small`), from `10 ^ 6` on it carries an exponent (`formatG_large`).
-/
import Mathlib.Algebra.Order.Field.Power
import Mathlib.Algebra.Order.Floor.Semifield
import Mathlib.Data.Int.Log
import Mathlib.Data.Rat.Floor
import Mathlib.Data.List.DropRight
import Mathlib.Tactic.Linarith
import Mathlib.Tactic.Positivity
import Mathlib.Tactic.FieldSimp
import Mathlib.Tactic.Ring

namespace Tether.Lib

set_option autoImplicit false

/-- The rationals binary64 holds: a significand of 53 bits times a power of two
of the format's range, subnormals included. -/
def Representable (v : ℚ) : Prop :=
  ∃ m e : ℤ, v = m * 2 ^ e ∧ |m| < 2 ^ 53 ∧ -1074 ≤ e ∧ e ≤ 971

/-- `negZero` is the one number whose value does not name it. -/
inductive Float64 where
  | nan
  | inf (neg : Bool)
  | negZero
  | fin (value : ℚ) (ok : Representable value)
  deriving DecidableEq

/-- A decimal `digits × 10 ^ exp`. -/
structure Decimal where
  digits : ℕ
  exp : ℤ
  deriving DecidableEq

def Decimal.value (d : Decimal) : ℚ := d.digits * 10 ^ d.exp

namespace Float64

/-! ## Comparison and conversion -/

def value? : Float64 → Option ℚ
  | .nan | .inf _ => none
  | .negZero => some 0
  | .fin v _ => some v

/-- The `==` of the format: a NaN differs from everything, both zeros are equal. -/
def eq : Float64 → Float64 → Bool
  | .nan, _ | _, .nan => false
  | .inf a, .inf b => a == b
  | a, b => a.value?.isSome && a.value? == b.value?

/-- Finite numbers are compared by their values. -/
theorem eq_of_finite {x : Float64} {v : ℚ} (finite : x.value? = some v) (y : Float64) :
    x.eq y = decide (y.value? = some v) := by
  cases x with
  | nan | inf neg => cases finite
  | negZero | fin w held =>
      cases finite
      cases y <;> simp [eq, value?, Bool.beq_eq_decide_eq, eq_comm]

theorem eq_symm {x y : Float64} {v w : ℚ} (finite : x.value? = some v)
    (finite' : y.value? = some w) : x.eq y = y.eq x := by
  rw [eq_of_finite finite, eq_of_finite finite', finite, finite']
  exact decide_eq_decide.2 eq_comm

/-- `a / d` to the nearest integer, ties to the even one. -/
def roundHalfEven (a d : ℕ) : ℕ :=
  if 2 * (a % d) < d then a / d
  else if d < 2 * (a % d) then a / d + 1
  else if a / d % 2 = 0 then a / d else a / d + 1

/-- The number of low bits of `n` that do not fit the 53-bit significand. -/
def excess (n : ℕ) : ℕ := Nat.log 2 n - 52

/-- The nearest natural number with a 53-bit significand. -/
def nearestNat (n : ℕ) : ℕ := roundHalfEven n (2 ^ excess n) * 2 ^ excess n

theorem roundHalfEven_bounds (a d : ℕ) :
    a / d ≤ roundHalfEven a d ∧ roundHalfEven a d ≤ a / d + 1 := by
  unfold roundHalfEven
  split_ifs <;> omega

theorem roundHalfEven_one (a : ℕ) : roundHalfEven a 1 = a := by
  simp [roundHalfEven, Nat.mod_one]

theorem nearestNat_of_lt {n : ℕ} (small : n < 2 ^ 53) : nearestNat n = n := by
  have fits : excess n = 0 := by
    have := Nat.log_lt_of_lt_pow' (b := 2) (by decide : (53 : ℕ) ≠ 0) small
    unfold excess
    omega
  simp [nearestNat, fits, roundHalfEven_one]

theorem le_nearestNat_of_le {n : ℕ} (large : 2 ^ 53 ≤ n) : 2 ^ 53 ≤ nearestNat n := by
  have width : 53 ≤ Nat.log 2 n := Nat.le_log_of_pow_le (by decide) large
  have split : 2 ^ 52 * 2 ^ excess n ≤ n := by
    rw [← pow_add, show 52 + excess n = Nat.log 2 n by unfold excess; omega]
    exact Nat.pow_log_le_self 2 (by omega)
  have significand : 2 ^ 52 ≤ roundHalfEven n (2 ^ excess n) :=
    le_trans ((Nat.le_div_iff_mul_le (by positivity)).2 split) (roundHalfEven_bounds _ _).1
  have shifted : 2 ≤ 2 ^ excess n := by
    calc 2 = 2 ^ 1 := rfl
      _ ≤ 2 ^ excess n := Nat.pow_le_pow_right (by decide) (by unfold excess; omega)
  calc 2 ^ 53 = 2 ^ 52 * 2 := by norm_num
    _ ≤ roundHalfEven n (2 ^ excess n) * 2 ^ excess n := Nat.mul_le_mul significand shifted

theorem nearestNat_representable {n : ℕ} (bounded : n ≤ 2 ^ 63) :
    Representable (nearestNat n : ℚ) := by
  have shift : excess n ≤ 11 := by
    have := Nat.log_mono_right (b := 2) bounded
    rw [Nat.log_pow (by decide)] at this
    unfold excess
    omega
  have below : n < 2 ^ 53 * 2 ^ excess n := by
    rw [← pow_add]
    refine lt_of_lt_of_le (Nat.lt_pow_succ_log_self (b := 2) (by decide) n) ?_
    exact Nat.pow_le_pow_right (by decide) (by unfold excess; omega)
  have quotient : n / 2 ^ excess n < 2 ^ 53 := (Nat.div_lt_iff_lt_mul (Nat.two_pow_pos _)).2 below
  have rounded := (roundHalfEven_bounds n (2 ^ excess n)).2
  rcases Nat.lt_or_ge (roundHalfEven n (2 ^ excess n)) (2 ^ 53) with fits | carry
  · refine ⟨roundHalfEven n (2 ^ excess n), excess n, ?_, ?_, by omega, by omega⟩
    · simp [nearestNat]
    · rw [Nat.abs_cast]
      exact_mod_cast fits
  · -- the significand was rounded up to 2 ^ 53: one bit less, one exponent more
    have top : roundHalfEven n (2 ^ excess n) = 2 ^ 53 := by omega
    refine ⟨2 ^ 52, excess n + 1, ?_, by norm_num, by omega, by omega⟩
    rw [nearestNat, top, zpow_add₀ (by norm_num : (2 : ℚ) ≠ 0)]
    push_cast
    rw [zpow_natCast]
    ring

theorem representable_neg {v : ℚ} (h : Representable v) : Representable (-v) := by
  obtain ⟨m, e, rfl, bound, low, high⟩ := h
  exact ⟨-m, e, by push_cast; ring, by rwa [abs_neg], low, high⟩

/-- The exact value `ofInt64` gives to an integer. -/
def nearestInt (n : ℤ) : ℚ := if n < 0 then -(nearestNat n.natAbs : ℚ) else nearestNat n.natAbs

theorem nearestInt_representable (n : Int64) : Representable (nearestInt n.toInt) := by
  have bounded : n.toInt.natAbs ≤ 2 ^ 63 := by
    have := n.toInt_lt
    have := n.le_toInt
    omega
  unfold nearestInt
  split
  · exact representable_neg (nearestNat_representable bounded)
  · exact nearestNat_representable bounded

/-- The nearest binary64 number to a 64-bit integer. -/
def ofInt64 (n : Int64) : Float64 := .fin (nearestInt n.toInt) (nearestInt_representable n)

theorem nearestInt_of_lt {n : ℤ} (small : n.natAbs < 2 ^ 53) : nearestInt n = n := by
  unfold nearestInt
  rw [nearestNat_of_lt small]
  split_ifs with negative
  · have magnitude : (n.natAbs : ℤ) = -n := by omega
    rw [← Int.cast_natCast, magnitude, Int.cast_neg, neg_neg]
  · have magnitude : (n.natAbs : ℤ) = n := by omega
    rw [← Int.cast_natCast, magnitude]

theorem le_abs_nearestInt {n : ℤ} (large : 2 ^ 53 ≤ n.natAbs) : 2 ^ 53 ≤ |nearestInt n| := by
  have magnitude : |nearestInt n| = nearestNat n.natAbs := by
    unfold nearestInt
    split_ifs <;> simp
  rw [magnitude]
  exact_mod_cast le_nearestNat_of_le large

/-- An integer that fits the significand is equal, as a number of the format, to no other
integer. -/
theorem eq_ofInt64 {a : Int64} (small : a.toInt.natAbs < 2 ^ 53) (b : Int64) :
    (ofInt64 a).eq (ofInt64 b) = (a == b) := by
  have values : (ofInt64 a).eq (ofInt64 b) = decide (nearestInt a.toInt = nearestInt b.toInt) := by
    simp [eq, ofInt64, value?, Bool.beq_eq_decide_eq]
  have integers : nearestInt a.toInt = nearestInt b.toInt ↔ a = b := by
    refine ⟨fun same => ?_, fun same => by rw [same]⟩
    rw [nearestInt_of_lt small] at same
    rcases Nat.lt_or_ge b.toInt.natAbs (2 ^ 53) with fits | wide
    · rw [nearestInt_of_lt fits] at same
      exact Int64.toInt_inj.1 (by exact_mod_cast same)
    · have far := le_abs_nearestInt wide
      rw [← same, ← Int.cast_abs, Int.abs_eq_natAbs] at far
      have near : (2 ^ 53 : ℕ) ≤ a.toInt.natAbs := by exact_mod_cast far
      omega
  rw [values, Bool.beq_eq_decide_eq]
  exact decide_eq_decide.2 integers

theorem roundHalfEven_of_dvd {a d : ℕ} (pos : 0 < d) (whole : d ∣ a) :
    roundHalfEven a d = a / d := by
  simp [roundHalfEven, Nat.mod_eq_zero_of_dvd whole, pos]

/-- A natural number the format holds ends in as many zero bits as do not fit. -/
theorem excess_dvd_of_representable {n : ℕ} (held : Representable (n : ℚ)) :
    2 ^ excess n ∣ n := by
  rcases Nat.eq_zero_or_pos (excess n) with fits | wide
  · simp [fits]
  obtain ⟨m, e, value, bound, -, -⟩ := held
  have least : 2 ^ (52 + excess n) ≤ n := by
    rw [show 52 + excess n = Nat.log 2 n by unfold excess at wide ⊢; omega]
    refine Nat.pow_log_le_self 2 fun zero => ?_
    simp [zero, excess] at wide
  have scale : (excess n : ℤ) ≤ e := by
    by_contra small
    -- 53 bits below this exponent do not reach `n`
    have below : (n : ℚ) < 2 ^ 53 * 2 ^ ((excess n : ℤ) - 1) := by
      calc (n : ℚ) = m * 2 ^ e := value
        _ ≤ |(m : ℚ)| * 2 ^ e := by gcongr; exact le_abs_self _
        _ ≤ |(m : ℚ)| * 2 ^ ((excess n : ℤ) - 1) := by
            gcongr
            · norm_num
            · omega
        _ < 2 ^ 53 * 2 ^ ((excess n : ℤ) - 1) := by
            gcongr
            exact_mod_cast bound
    have power : (2 : ℚ) ^ 53 * 2 ^ ((excess n : ℤ) - 1) = 2 ^ (52 + excess n) := by
      rw [← zpow_natCast, ← zpow_natCast, ← zpow_add₀ (by norm_num)]
      congr 1
      push_cast
      ring
    rw [power] at below
    exact absurd (by exact_mod_cast below : n < 2 ^ (52 + excess n)) (by omega)
  obtain ⟨j, rfl⟩ := Int.eq_ofNat_of_zero_le (by omega : 0 ≤ e)
  have product : (n : ℤ) = m * 2 ^ j := by
    rw [zpow_natCast] at value
    exact_mod_cast value
  have divides : ((2 ^ excess n : ℕ) : ℤ) ∣ n := by
    rw [product]
    push_cast
    exact Dvd.dvd.mul_left (pow_dvd_pow 2 (by omega)) m
  exact_mod_cast divides

theorem nearestNat_of_representable {n : ℕ} (held : Representable (n : ℚ)) :
    nearestNat n = n := by
  have whole := excess_dvd_of_representable held
  rw [nearestNat, roundHalfEven_of_dvd (by positivity) whole, Nat.div_mul_cancel whole]

/-- Conversion keeps the integers the format holds, and no others. -/
theorem nearestInt_eq_iff (n : Int64) :
    nearestInt n.toInt = n.toInt ↔ Representable (n.toInt : ℚ) := by
  constructor
  · intro kept
    rw [← kept]
    exact nearestInt_representable n
  · intro held
    unfold nearestInt
    obtain ⟨k, pos | neg⟩ := Int.eq_nat_or_neg n.toInt
    · rw [pos] at held ⊢
      have same : nearestNat k = k := nearestNat_of_representable (by simpa using held)
      rw [if_neg (by omega)]
      simp [same]
    · rw [neg] at held ⊢
      have same : nearestNat k = k :=
        nearestNat_of_representable (by simpa using representable_neg held)
      split
      · simp [same]
      · obtain rfl : k = 0 := by omega
        simp [same]

/-! ## The shortest decimal -/

/-- The exponent of the last significand bit of a positive number. -/
def lastBit (v : ℚ) : ℤ := max (Int.log 2 v - 52) (-1074)

/-- Half the distance to the next number above. -/
def halfAbove (v : ℚ) : ℚ := 2 ^ lastBit v / 2

/-- Half the distance to the next number below; at a power of two the numbers
below are twice as dense. -/
def halfBelow (v : ℚ) : ℚ :=
  if v = 2 ^ Int.log 2 v ∧ -1074 < lastBit v then 2 ^ lastBit v / 4 else 2 ^ lastBit v / 2

/-- A tie rounds to `v` when its significand is even. -/
def tiesToSelf (v : ℚ) : Bool := ⌊v / 2 ^ lastBit v⌋ % 2 == 0

/-- The truncation of `v` to `k` significant digits. -/
def down (v : ℚ) (k : ℕ) : Decimal :=
  ⟨⌊v / 10 ^ (Int.log 10 v + 1 - k)⌋₊, Int.log 10 v + 1 - k⟩

/-- The `k`-digit decimal after the truncation. -/
def up (v : ℚ) (k : ℕ) : Decimal := ⟨(down v k).digits + 1, (down v k).exp⟩

/-- A decimal at or below `v` reads back as `v`. -/
def readsDown (v : ℚ) (d : Decimal) : Bool :=
  v - d.value < halfBelow v || (tiesToSelf v && v - d.value == halfBelow v)

/-- A decimal above `v` reads back as `v`. -/
def readsUp (v : ℚ) (d : Decimal) : Bool :=
  d.value - v < halfAbove v || (tiesToSelf v && d.value - v == halfAbove v)

/-- The nearer of the two neighbours, a tie going to the even last digit. -/
def nearer (v : ℚ) (k : ℕ) : Decimal :=
  if v - (down v k).value < (up v k).value - v then down v k
  else if (up v k).value - v < v - (down v k).value then up v k
  else if (down v k).digits % 2 = 0 then down v k else up v k

/-- The `k`-digit decimal that reads back as `v`, if there is one. -/
def pick (v : ℚ) (k : ℕ) : Option Decimal :=
  match readsDown v (down v k), readsUp v (up v k) with
  | true, true => some (nearer v k)
  | true, false => some (down v k)
  | false, true => some (up v k)
  | false, false => none

/-- Search from `k` digits on.  Seventeen digits always suffice, so the last
candidate is never reached by exhaustion. -/
def shortestFrom (v : ℚ) : ℕ → ℕ → Decimal
  | 0, k => down v k
  | fuel + 1, k => (pick v k).getD (shortestFrom v fuel (k + 1))

def shortest (v : ℚ) : Decimal := shortestFrom v 17 1

/-! ## The text -/

/-- At least two exponent digits. -/
def exponentText (e : ℤ) : List Char :=
  (if e < 0 then '-' else '+') ::
    (if e.natAbs < 10 then '0' :: Nat.toDigits 10 e.natAbs else Nat.toDigits 10 e.natAbs)

/-- `d.ddd e±xx`, without trailing zeros in the fraction. -/
def scientific (digits : List Char) (e : ℤ) : List Char :=
  let fraction := digits.tail.rdropWhile (· == '0')
  digits.take 1 ++ (if fraction = [] then [] else '.' :: fraction) ++ 'e' :: exponentText e

/-- Plain notation; `point` is the position of the decimal point in `digits`. -/
def plain (digits : List Char) (point : ℤ) : List Char :=
  if point ≤ 0 then
    '0' :: '.' :: (List.replicate (-point).toNat '0' ++ digits.rdropWhile (· == '0'))
  else
    let fraction := (digits.drop point.toNat).rdropWhile (· == '0')
    digits.take point.toNat ++ List.replicate (point.toNat - digits.length) '0' ++
      (if fraction = [] then [] else '.' :: fraction)

/-- The text of a positive number. -/
def formatPos (v : ℚ) : List Char :=
  let d := shortest v
  let digits := Nat.toDigits 10 d.digits
  let point : ℤ := digits.length + d.exp
  if point - 1 < -4 ∨ 6 ≤ point - 1 then scientific digits (point - 1) else plain digits point

/-- The shortest `%g` text. -/
def formatG : Float64 → List Char
  | .nan => "NaN".toList
  | .inf neg => if neg then "-Inf".toList else "+Inf".toList
  | .negZero => "-0".toList
  | .fin v _ =>
      if v = 0 then ['0'] else if v < 0 then '-' :: formatPos (-v) else formatPos v

/-! ## Integers -/

theorem toDigits_mul_pow {d : ℕ} (pos : 0 < d) (j : ℕ) :
    Nat.toDigits 10 (d * 10 ^ j) = Nat.toDigits 10 d ++ List.replicate j '0' := by
  induction j with
  | zero => simp
  | succ j ih =>
      have shift := Nat.toDigits_append_toDigits (b := 10) (n := d * 10 ^ j) (d := 0)
        (by decide) (Nat.mul_pos pos (by positivity)) (by decide)
      rw [ih, Nat.add_zero, show Nat.toDigits 10 0 = ['0'] from rfl] at shift
      rw [List.replicate_succ', ← List.append_assoc, shift, pow_succ]
      ring_nf

theorem lastBit_natCast_le {n : ℕ} (small : n < 2 ^ 53) : lastBit (n : ℚ) ≤ 0 := by
  have := Nat.log_lt_of_lt_pow' (b := 2) (by decide : (53 : ℕ) ≠ 0) small
  unfold lastBit
  rw [Int.log_natCast]
  omega

theorem half_natCast {n : ℕ} (small : n < 2 ^ 53) :
    (0 < halfBelow (n : ℚ) ∧ halfBelow (n : ℚ) < 1) ∧ halfAbove (n : ℚ) < 1 := by
  have unit : (2 : ℚ) ^ lastBit (n : ℚ) ≤ 1 :=
    zpow_le_one_of_nonpos₀ (by norm_num) (lastBit_natCast_le small)
  have pos : (0 : ℚ) < 2 ^ lastBit (n : ℚ) := by positivity
  unfold halfBelow halfAbove
  refine ⟨?_, by linarith⟩
  split_ifs <;> constructor <;> linarith

theorem down_natCast (n k : ℕ) (within : k ≤ Nat.log 10 n + 1) :
    down (n : ℚ) k =
      ⟨n / 10 ^ (Nat.log 10 n + 1 - k), (Nat.log 10 n + 1 - k : ℕ)⟩ := by
  have unit : Int.log 10 (n : ℚ) + 1 - k = ((Nat.log 10 n + 1 - k : ℕ) : ℤ) := by
    rw [Int.log_natCast]
    omega
  rw [down, unit, zpow_natCast]
  congr 1
  rw [← Nat.floor_div_eq_div (K := ℚ)]
  push_cast
  rfl

/-- An integer below `2 ^ 53` is a unit or more away from every other integer, so
a `k`-digit decimal reads back as it only when it is the integer itself. -/
theorem pick_natCast {n k : ℕ} (small : n < 2 ^ 53) (within : k ≤ Nat.log 10 n + 1) :
    pick (n : ℚ) k =
      if 10 ^ (Nat.log 10 n + 1 - k) ∣ n then
        some ⟨n / 10 ^ (Nat.log 10 n + 1 - k), (Nat.log 10 n + 1 - k : ℕ)⟩
      else none := by
  obtain ⟨⟨halfPos, belowOne⟩, aboveOne⟩ := half_natCast small
  have trunc := down_natCast n k within
  generalize Nat.log 10 n + 1 - k = j at trunc
  have modulus : (n : ℚ) = (n / 10 ^ j : ℕ) * 10 ^ j + (n % 10 ^ j : ℕ) := by
    exact_mod_cast (Nat.div_add_mod' n (10 ^ j)).symm
  have room : ((n % 10 ^ j : ℕ) : ℚ) + 1 ≤ 10 ^ j := by
    exact_mod_cast Nat.mod_lt n (by positivity)
  have below : (n : ℚ) - (down (n : ℚ) k).value = (n % 10 ^ j : ℕ) := by
    simp only [Decimal.value, trunc, zpow_natCast]
    linarith
  have above : 1 ≤ (up (n : ℚ) k).value - n := by
    simp only [Decimal.value, up, trunc, zpow_natCast]
    push_cast
    linarith
  have notUp : readsUp (n : ℚ) (up (n : ℚ) k) = false := by
    have apart : (up (n : ℚ) k).value - n ≠ halfAbove n := by linarith
    simp only [readsUp, Bool.or_eq_false_iff, decide_eq_false_iff_not, Bool.and_eq_false_iff]
    exact ⟨by linarith, Or.inr (by simpa using apart)⟩
  by_cases divides : 10 ^ j ∣ n
  · have isDown : readsDown (n : ℚ) (down (n : ℚ) k) = true := by
      simp [readsDown, below, Nat.mod_eq_zero_of_dvd divides, halfPos]
    rw [pick, isDown, notUp, if_pos divides, trunc]
  · have inexact : (1 : ℚ) ≤ (n % 10 ^ j : ℕ) := by
      have := Nat.pos_of_ne_zero fun zero => divides (Nat.dvd_of_mod_eq_zero zero)
      exact_mod_cast this
    have notDown : readsDown (n : ℚ) (down (n : ℚ) k) = false := by
      have apart : ((n % 10 ^ j : ℕ) : ℚ) ≠ halfBelow n := by linarith
      simp only [readsDown, below, Bool.or_eq_false_iff, decide_eq_false_iff_not,
        Bool.and_eq_false_iff]
      exact ⟨by linarith, Or.inr (by simpa using apart)⟩
    simp [pick, notDown, notUp, divides]

theorem shortestFrom_natCast {n : ℕ} (small : n < 2 ^ 53) (fuel k : ℕ)
    (within : k ≤ Nat.log 10 n + 1) (enough : Nat.log 10 n + 1 < k + fuel) :
    ∃ j : ℕ, (shortestFrom (n : ℚ) fuel k).exp = j ∧
      (shortestFrom (n : ℚ) fuel k).digits * 10 ^ j = n := by
  induction fuel generalizing k with
  | zero => omega
  | succ fuel ih =>
      by_cases divides : 10 ^ (Nat.log 10 n + 1 - k) ∣ n
      · refine ⟨Nat.log 10 n + 1 - k, ?_, ?_⟩
        · simp [shortestFrom, pick_natCast small within, divides]
        · simpa [shortestFrom, pick_natCast small within, divides] using
            Nat.div_mul_cancel divides
      · have more : k + 1 ≤ Nat.log 10 n + 1 := by
          by_contra last
          exact divides (by rw [show Nat.log 10 n + 1 - k = 0 by omega, pow_zero]; exact one_dvd n)
        simpa [shortestFrom, pick_natCast small within, divides] using
          ih (k + 1) more (by omega)

/-- The shortest decimal of an integer below `2 ^ 53` is that integer. -/
theorem shortest_natCast {n : ℕ} (small : n < 2 ^ 53) :
    ∃ j : ℕ, (shortest (n : ℚ)).exp = j ∧ (shortest (n : ℚ)).digits * 10 ^ j = n := by
  have digits : Nat.log 10 n < 16 := Nat.log_lt_of_lt_pow' (by decide) (by omega)
  exact shortestFrom_natCast small 17 1 (by omega) (by omega)

theorem formatPos_natCast {n : ℕ} (pos : 0 < n) (small : n < 10 ^ 6) :
    formatPos (n : ℚ) = Nat.toDigits 10 n := by
  obtain ⟨j, exp, digits⟩ := shortest_natCast (n := n) (by omega)
  generalize shape : shortest (n : ℚ) = d at exp digits
  have digitsPos : 0 < d.digits := by
    by_contra zero
    simp [show d.digits = 0 by omega] at digits
    omega
  have numeral : Nat.toDigits 10 n = Nat.toDigits 10 d.digits ++ List.replicate j '0' := by
    rw [← digits, toDigits_mul_pow digitsPos]
  have width : (Nat.toDigits 10 n).length ≤ 6 :=
    (Nat.length_toDigits_le_iff (by decide) (by decide)).2 small
  have nonempty : 0 < (Nat.toDigits 10 d.digits).length := Nat.length_toDigits_pos
  rw [numeral, List.length_append, List.length_replicate] at width
  have point : (((Nat.toDigits 10 d.digits).length : ℤ) + d.exp).toNat =
      (Nat.toDigits 10 d.digits).length + j := by rw [exp]; omega
  have isPlain : ¬ (((Nat.toDigits 10 d.digits).length : ℤ) + d.exp - 1 < -4 ∨
      6 ≤ ((Nat.toDigits 10 d.digits).length : ℤ) + d.exp - 1) := by rw [exp]; omega
  have positive : ¬ ((Nat.toDigits 10 d.digits).length : ℤ) + d.exp ≤ 0 := by rw [exp]; omega
  have kept : (Nat.toDigits 10 d.digits).take ((Nat.toDigits 10 d.digits).length + j) =
      Nat.toDigits 10 d.digits := List.take_of_length_le (by omega)
  have dropped : (Nat.toDigits 10 d.digits).drop ((Nat.toDigits 10 d.digits).length + j) = [] :=
    List.drop_of_length_le (by omega)
  rw [numeral]
  simp only [formatPos, shape, if_neg isPlain, plain, if_neg positive, point, kept, dropped]
  simp

/-- The decimal point of the chosen decimal is not left of the number's own. -/
theorem log_lt_point (v : ℚ) (pos : 0 < v) (fuel k : ℕ) (least : 1 ≤ k) :
    Int.log 10 v + 1 ≤
      ((Nat.toDigits 10 (shortestFrom v fuel k).digits).length : ℤ) +
        (shortestFrom v fuel k).exp := by
  -- every candidate has the exponent of `k` digits and at least `10 ^ (k - 1)` as digits
  have wide : ∀ (k : ℕ), 1 ≤ k → ∀ d : Decimal, d.exp = (down v k).exp →
      (down v k).digits ≤ d.digits →
      Int.log 10 v + 1 ≤ ((Nat.toDigits 10 d.digits).length : ℤ) + d.exp := by
    intro k least d sameExp digits
    have lead : 10 ^ (k - 1) ≤ (down v k).digits := by
      refine Nat.le_floor ?_
      rw [le_div_iff₀ (by positivity)]
      push_cast
      rw [← zpow_natCast, ← zpow_add₀ (by norm_num : (10 : ℚ) ≠ 0),
        show ((k - 1 : ℕ) : ℤ) + (Int.log 10 v + 1 - k) = Int.log 10 v by omega]
      exact_mod_cast Int.zpow_log_le_self (by decide) pos
    have length : k ≤ (Nat.toDigits 10 d.digits).length := by
      by_contra short
      rcases Nat.lt_or_ge 1 k with more | one
      · have := (Nat.length_toDigits_le_iff (b := 10) (n := d.digits) (k := k - 1)
          (by decide) (by omega)).1 (by omega)
        omega
      · have := Nat.length_toDigits_pos (b := 10) (n := d.digits)
        omega
    rw [sameExp]
    simp only [down]
    omega
  induction fuel generalizing k with
  | zero => exact wide k least _ rfl le_rfl
  | succ fuel ih =>
      simp only [shortestFrom, pick]
      split
      · simp only [Option.getD_some, nearer]
        split_ifs
        · exact wide k least _ rfl le_rfl
        · exact wide k least _ rfl (Nat.le_succ _)
        · exact wide k least _ rfl le_rfl
        · exact wide k least _ rfl (Nat.le_succ _)
      · exact wide k least _ rfl le_rfl
      · exact wide k least _ rfl (Nat.le_succ _)
      · exact ih (k + 1) (by omega)

/-- From `10 ^ 6` on the text carries an exponent. -/
theorem exponent_mem_formatPos {v : ℚ} (large : 10 ^ 6 ≤ v) : 'e' ∈ formatPos v := by
  have pos : 0 < v := lt_of_lt_of_le (by norm_num) large
  have six : 6 ≤ Int.log 10 v :=
    (Int.zpow_le_iff_le_log (by decide) pos).1 (by exact_mod_cast large)
  have point := log_lt_point v pos 17 1 le_rfl
  have isScientific : 6 ≤ ((Nat.toDigits 10 (shortest v).digits).length : ℤ) +
      (shortest v).exp - 1 := by
    unfold shortest
    omega
  simp [formatPos, isScientific, scientific]

theorem toList_intRepr (n : ℤ) :
    n.repr.toList =
      if n < 0 then '-' :: Nat.toDigits 10 n.natAbs else Nat.toDigits 10 n.natAbs := by
  cases n with
  | ofNat m => simp [Int.repr]
  | negSucc m => simp [Int.repr, Int.negSucc_lt_zero]

/-- **Small integers.**  Below `10 ^ 6` the text is the decimal numeral. -/
theorem formatG_small {z : ℤ} (held : Representable z) (small : z.natAbs < 10 ^ 6) :
    formatG (.fin z held) = z.repr.toList := by
  rcases Nat.eq_zero_or_pos z.natAbs with zero | positive
  · obtain rfl : z = 0 := Int.natAbs_eq_zero.1 zero
    simp [formatG, Int.repr]
  · have nonzero : (z : ℚ) ≠ 0 := Int.cast_ne_zero.2 (Int.natAbs_pos.1 positive)
    have digits := formatPos_natCast positive small
    rw [toList_intRepr, ← digits]
    by_cases negative : z < 0
    · have magnitude : (z.natAbs : ℚ) = -z := by
        rw [← Int.cast_natCast, show (z.natAbs : ℤ) = -z by omega, Int.cast_neg]
      simp [formatG, nonzero, negative, magnitude]
    · have magnitude : (z.natAbs : ℚ) = z := by
        rw [← Int.cast_natCast, show (z.natAbs : ℤ) = z by omega]
      simp [formatG, nonzero, negative, magnitude]

/-- **Large numbers.**  From `10 ^ 6` on the text carries an exponent, which no
decimal numeral does (`formatG_large_ne`). -/
theorem formatG_large {v : ℚ} (held : Representable v) (large : 10 ^ 6 ≤ |v|) :
    'e' ∈ formatG (.fin v held) := by
  have nonzero : v ≠ 0 := fun zero => by norm_num [zero] at large
  rw [formatG, if_neg nonzero]
  split
  · next negative =>
      rw [abs_of_neg negative] at large
      exact List.mem_cons_of_mem _ (exponent_mem_formatPos large)
  · next positive =>
      rw [abs_of_nonneg (not_lt.1 positive)] at large
      exact exponent_mem_formatPos large

theorem exponent_not_mem_intRepr (n : ℤ) : 'e' ∉ n.repr.toList := by
  have digits : 'e' ∉ Nat.toDigits 10 n.natAbs := fun member =>
    absurd (Nat.isDigit_of_mem_toDigits (by decide) (by decide) member) (by decide)
  rw [toList_intRepr]
  split
  · simpa using digits
  · exact digits

theorem formatG_large_ne {v : ℚ} (held : Representable v) (large : 10 ^ 6 ≤ |v|) (n : ℤ) :
    formatG (.fin v held) ≠ n.repr.toList := by
  intro same
  refine exponent_not_mem_intRepr n ?_
  rw [← same]
  exact formatG_large held large

theorem formatG_ofInt64_small (n : Int64) (small : n.toInt.natAbs < 10 ^ 6) :
    formatG (ofInt64 n) = n.toInt.repr.toList := by
  have value : nearestInt n.toInt = n.toInt := nearestInt_of_lt (by omega)
  have held : Representable (n.toInt : ℚ) := value ▸ nearestInt_representable n
  have number : ofInt64 n = .fin n.toInt held := by simp only [ofInt64, value]
  rw [number, formatG_small held small]

theorem formatG_ofInt64_ne (n : Int64) (large : 10 ^ 6 ≤ n.toInt.natAbs) (k : ℤ) :
    formatG (ofInt64 n) ≠ k.repr.toList := by
  refine formatG_large_ne _ ?_ k
  rcases Nat.lt_or_ge n.toInt.natAbs (2 ^ 53) with fits | wide
  · rw [nearestInt_of_lt fits, ← Int.cast_abs, Int.abs_eq_natAbs]
    exact_mod_cast large
  · exact le_trans (by norm_num) (le_abs_nearestInt wide)

/-! ## The alphabet of numbers -/

/-- The characters of a finite number's text. -/
def numeric (c : Char) : Bool := c.isDigit || c == '.' || c == 'e' || c == '+' || c == '-'

theorem numeric_toDigits {n : ℕ} {c : Char} (member : c ∈ Nat.toDigits 10 n) : numeric c := by
  simp [numeric, Nat.isDigit_of_mem_toDigits (by decide) (by decide) member]

theorem numeric_exponentText {e : ℤ} {c : Char} (member : c ∈ exponentText e) : numeric c := by
  have digits : ∀ c ∈ Nat.toDigits 10 e.natAbs, numeric c := fun _ => numeric_toDigits
  simp only [exponentText, List.mem_cons] at member
  rcases member with rfl | member
  · split <;> decide
  · split at member
    · rcases List.mem_cons.1 member with rfl | member
      · decide
      · exact digits c member
    · exact digits c member

section Notations

variable {digits : List Char} (numerals : ∀ c ∈ digits, numeric c)

include numerals

theorem numeric_fraction {part : List Char} (within : part ⊆ digits) {c : Char}
    (member : c ∈ if part.rdropWhile (· == '0') = [] then []
      else '.' :: part.rdropWhile (· == '0')) : numeric c := by
  split at member
  · simp at member
  · rcases List.mem_cons.1 member with rfl | member
    · decide
    · exact numerals c (within ((List.rdropWhile_prefix _ _).subset member))

theorem numeric_scientific (e : ℤ) : ∀ c ∈ scientific digits e, numeric c := by
  intro c member
  simp only [scientific, List.mem_append, List.mem_cons] at member
  rcases member with (lead | fraction) | rfl | exponent
  · exact numerals c (List.take_subset _ _ lead)
  · exact numeric_fraction numerals (List.tail_subset _) fraction
  · decide
  · exact numeric_exponentText exponent

theorem numeric_plain (point : ℤ) : ∀ c ∈ plain digits point, numeric c := by
  intro c member
  simp only [plain] at member
  split at member
  · simp only [List.mem_cons, List.mem_append, List.mem_replicate] at member
    rcases member with rfl | rfl | ⟨-, rfl⟩ | member
    · decide
    · decide
    · decide
    · exact numerals c ((List.rdropWhile_prefix _ _).subset member)
  · simp only [List.mem_append, List.mem_replicate] at member
    rcases member with (lead | ⟨-, rfl⟩) | fraction
    · exact numerals c (List.take_subset _ _ lead)
    · decide
    · exact numeric_fraction numerals (List.drop_subset _ _) fraction

end Notations

theorem numeric_formatPos (v : ℚ) : ∀ c ∈ formatPos v, numeric c := by
  have numerals : ∀ c ∈ Nat.toDigits 10 (shortest v).digits, numeric c := fun _ => numeric_toDigits
  unfold formatPos
  dsimp only
  split
  · exact numeric_scientific numerals _
  · exact numeric_plain numerals _

theorem numeric_formatG {x : Float64} {v : ℚ} (finite : x.value? = some v) :
    ∀ c ∈ formatG x, numeric c := by
  cases x with
  | nan | inf neg => cases finite
  | negZero =>
      intro c member
      have characters : c = '-' ∨ c = '0' := by simpa [formatG] using member
      rcases characters with rfl | rfl <;> decide
  | fin w held =>
      intro c member
      simp only [formatG] at member
      split_ifs at member
      · rw [List.mem_singleton.1 member]
        decide
      · rcases List.mem_cons.1 member with rfl | member
        · decide
        · exact numeric_formatPos _ c member
      · exact numeric_formatPos _ c member

theorem numeric_intRepr (n : ℤ) : ∀ c ∈ n.repr.toList, numeric c := by
  intro c member
  rw [toList_intRepr] at member
  split at member
  · rcases List.mem_cons.1 member with rfl | member
    · decide
    · exact numeric_toDigits member
  · exact numeric_toDigits member

/-- Decimal texts of integers differ if the integers do. -/
theorem intRepr_inj {n m : ℤ} (same : n.repr = m.repr) : n = m := by
  have digits {i j : ℕ} (same : Nat.toDigits 10 i = Nat.toDigits 10 j) : i = j := by
    rw [← Nat.ofDigitChars_ten_toDigits (n := i), same, Nat.ofDigitChars_ten_toDigits]
  have unsigned {i j : ℕ} : '-' :: Nat.toDigits 10 i ≠ Nat.toDigits 10 j := by
    intro same
    have sign : '-' ∈ Nat.toDigits 10 j := same ▸ List.mem_cons_self
    exact absurd (Nat.isDigit_of_mem_toDigits (by decide) (by decide) sign) (by decide)
  have texts := congrArg String.toList same
  rw [toList_intRepr, toList_intRepr] at texts
  split_ifs at texts with negative negative' negative'
  · have magnitude := digits (List.cons.inj texts).2
    omega
  · exact absurd texts unsigned
  · exact absurd texts.symm unsigned
  · have magnitude := digits texts
    omega

/-- An integral number has the decimal text of an integer only if it is that integer, is
small, and is not the negative zero. -/
theorem formatG_eq_intRepr_iff {x : Float64} {z : ℤ} (integral : x.value? = some (z : ℚ))
    (n : ℤ) : formatG x = n.repr.toList ↔ z = n ∧ z.natAbs < 10 ^ 6 ∧ x ≠ .negZero := by
  cases x with
  | nan | inf neg => cases integral
  | negZero =>
      refine iff_of_false (fun same => ?_) fun decimal => decimal.2.2 rfl
      have minus : ['-', '0'] = n.repr.toList := same
      rw [toList_intRepr] at minus
      split_ifs at minus with negative
      · have zero : n.natAbs = 0 := by
          rw [← Nat.ofDigitChars_ten_toDigits (n := n.natAbs), ← (List.cons.inj minus).2]
          rfl
        omega
      · have sign : '-' ∈ Nat.toDigits 10 n.natAbs := minus ▸ List.mem_cons_self
        exact absurd (Nat.isDigit_of_mem_toDigits (by decide) (by decide) sign) (by decide)
  | fin v held =>
      obtain rfl : v = z := Option.some.inj integral
      rcases Nat.lt_or_ge z.natAbs (10 ^ 6) with small | large
      · rw [formatG_small held small, String.toList_inj]
        constructor
        · intro same
          exact ⟨intRepr_inj same, small, by rintro ⟨⟩⟩
        · rintro ⟨rfl, -, -⟩
          rfl
      · have magnitude : 10 ^ 6 ≤ |(z : ℚ)| := by
          rw [← Int.cast_abs, Int.abs_eq_natAbs]
          exact_mod_cast large
        exact iff_of_false (formatG_large_ne held magnitude n) fun decimal => by omega

example : formatG (ofInt64 1000000) = "1e+06".toList := by decide +kernel
example : formatG (ofInt64 (-123456)) = "-123456".toList := by decide +kernel

end Float64

end Tether.Lib
