import Mathlib.Data.Int.Log
import Mathlib.Algebra.Order.Floor.Ring
import Mathlib.Algebra.Order.Field.Basic
import Mathlib.Algebra.Ring.Parity
import Mathlib.Tactic.FieldSimp
import Mathlib.Tactic.Linarith
import Mathlib.Tactic.Positivity
import Mathlib.Tactic.Ring

/-!
# Support — Rounding to a binary format

A format has significands of `precision` bits and a least exponent.  `round` takes a number to the
nearest number of the format, of two the one with the even significand; the greatest exponent
plays no part in it.

* `round_mono`, `round_neg`, `round_of_represents`, `round_represents`: rounding keeps the order,
  turns with the sign, and moves exactly the numbers that the format does not have.
* `abs_round_sub_le`: a rounded number is at most half a last place away.
* `Multiple.within_round`: so the multiples of the least place, the sums and whole multiples of
  numbers of the format among them, round in proportion (`InProportion`) by `2 ^ -precision`, however
  small they are; any number but for half the least place (`abs_round_sub_le_add`).
* `InProportion.trans`: proportions along a chain of roundings.
-/

namespace Support

variable {K : Type} [Field K] [LinearOrder K] [IsStrictOrderedRing K] [FloorRing K]

/-! ### The nearest integer -/

/-- The nearest integer, of two the even one. -/
def nearestEven (x : K) : ℤ :=
  if Int.fract x < 1 / 2 then ⌊x⌋
  else if 1 / 2 < Int.fract x then ⌊x⌋ + 1
  else if Even ⌊x⌋ then ⌊x⌋ else ⌊x⌋ + 1

omit [IsStrictOrderedRing K] in
theorem floor_le_nearestEven (x : K) : ⌊x⌋ ≤ nearestEven x := by
  unfold nearestEven
  split_ifs <;> omega

omit [IsStrictOrderedRing K] in
theorem nearestEven_le_floor_add (x : K) : nearestEven x ≤ ⌊x⌋ + 1 := by
  unfold nearestEven
  split_ifs <;> omega

@[simp] theorem nearestEven_intCast (n : ℤ) : nearestEven (n : K) = n := by
  simp [nearestEven]

theorem abs_nearestEven_sub_le (x : K) : |(nearestEven x : K) - x| ≤ 1 / 2 := by
  have hx : (⌊x⌋ : K) + Int.fract x = x := Int.floor_add_fract x
  have h₀ : 0 ≤ Int.fract x := Int.fract_nonneg x
  have h₁ : Int.fract x < 1 := Int.fract_lt_one x
  unfold nearestEven
  rw [abs_le]
  split_ifs with hlow hhigh heven
  · constructor <;> linarith
  · push_cast
    constructor <;> linarith
  · constructor <;> linarith
  · push_cast
    constructor <;> linarith

theorem nearestEven_mono {x y : K} (h : x ≤ y) : nearestEven x ≤ nearestEven y := by
  rcases eq_or_lt_of_le (Int.floor_mono h) with hfloor | hfloor
  · have hx : (⌊x⌋ : K) + Int.fract x = x := Int.floor_add_fract x
    have hy : (⌊y⌋ : K) + Int.fract y = y := Int.floor_add_fract y
    rw [hfloor] at hx
    have hfract : Int.fract x ≤ Int.fract y := by linarith
    unfold nearestEven
    rw [hfloor]
    split_ifs <;> first | omega | linarith
  · calc nearestEven x ≤ ⌊x⌋ + 1 := nearestEven_le_floor_add x
      _ ≤ ⌊y⌋ := hfloor
      _ ≤ nearestEven y := floor_le_nearestEven y

theorem nearestEven_neg (x : K) : nearestEven (-x) = -nearestEven x := by
  by_cases hx : Int.fract x = 0
  · -- an integer
    obtain ⟨n, rfl⟩ : ∃ n : ℤ, x = n := ⟨⌊x⌋, by rw [← Int.floor_add_fract x, hx]; simp⟩
    rw [← Int.cast_neg, nearestEven_intCast, nearestEven_intCast]
  · have hfract : Int.fract (-x) = 1 - Int.fract x := Int.fract_neg hx
    have hfloor : ⌊-x⌋ = -⌊x⌋ - 1 := by
      have h₁ : (⌊-x⌋ : K) + Int.fract (-x) = -x := Int.floor_add_fract (-x)
      have h₂ : (⌊x⌋ : K) + Int.fract x = x := Int.floor_add_fract x
      have h : (⌊-x⌋ : K) = ((-⌊x⌋ - 1 : ℤ) : K) := by
        push_cast
        linarith
      exact_mod_cast h
    have hparity : Even (-⌊x⌋ - 1) ↔ ¬ Even ⌊x⌋ := by
      rw [Int.even_sub_one, even_neg]
    unfold nearestEven
    rw [hfract, hfloor]
    split_ifs with h₁ h₂ h₃ h₄ h₅ h₆ h₇ h₈ <;> first | omega | linarith | tauto

/-- The nearest integer is on the same side of an integer. -/
theorem nearestEven_le_of_le {x : K} {n : ℤ} (h : x ≤ n) : nearestEven x ≤ n :=
  nearestEven_intCast (K := K) n ▸ nearestEven_mono h

theorem le_nearestEven_of_le {x : K} {n : ℤ} (h : n ≤ x) : n ≤ nearestEven x :=
  nearestEven_intCast (K := K) n ▸ nearestEven_mono h

/-! ### Proportions -/

/-- `y` is `x` but for a proportion `ε` of it. -/
def InProportion (ε x y : K) : Prop := |y - x| ≤ ε * |x|

omit [FloorRing K] in
/-- Proportions along a chain. -/
theorem InProportion.trans {ε δ x y z : K} (hδ : 0 ≤ δ) (hxy : InProportion ε x y)
    (hyz : InProportion δ y z) :
    InProportion (ε + δ + ε * δ) x z := by
  have hy : |y| ≤ |x| + ε * |x| := by
    calc |y| = |x + (y - x)| := by ring_nf
      _ ≤ |x| + |y - x| := abs_add_le _ _
      _ ≤ |x| + ε * |x| := by
        unfold InProportion at hxy
        linarith
  calc |z - x| = |(z - y) + (y - x)| := by ring_nf
    _ ≤ |z - y| + |y - x| := abs_add_le _ _
    _ ≤ δ * |y| + ε * |x| := add_le_add hyz hxy
    _ ≤ δ * (|x| + ε * |x|) + ε * |x| := by
      have := mul_le_mul_of_nonneg_left hy hδ
      linarith
    _ = (ε + δ + ε * δ) * |x| := by ring

omit [FloorRing K] in
theorem InProportion.mul {ε x y : K} (h : InProportion ε x y) (k : K) :
    InProportion ε (x * k) (y * k) := by
  have hk : 0 ≤ |k| := abs_nonneg k
  calc |y * k - x * k| = |y - x| * |k| := by rw [← sub_mul, abs_mul]
    _ ≤ ε * |x| * |k| := mul_le_mul_of_nonneg_right h hk
    _ = ε * |x * k| := by rw [abs_mul, mul_assoc]

omit [FloorRing K] in
theorem InProportion.div {ε x y : K} (h : InProportion ε x y) (k : K) :
    InProportion ε (x / k) (y / k) := by
  rw [div_eq_mul_inv, div_eq_mul_inv]
  exact h.mul k⁻¹

/-! ### Formats -/

/-- Significands of `precision` bits and exponents from `emin` to `emax`. -/
structure BinaryFormat where
  precision : ℕ
  emin : ℤ
  emax : ℤ
  precision_pos : 0 < precision
  emin_le : emin ≤ emax

namespace BinaryFormat

variable (f : BinaryFormat)

/-- The exponent of the last place of subnormal numbers. -/
def least : ℤ := f.emin + 1 - f.precision

/-- The exponent of a number, that of the subnormal ones at the least. -/
def exponent (x : K) : ℤ := max (Int.log 2 |x|) f.emin

/-- The last place of numbers of the size of `x`. -/
def ulp (x : K) : K := 2 ^ (f.exponent x + 1 - f.precision)

/-- The number of the format nearest to `x`, the even one of two. -/
def round (x : K) : K := nearestEven (x / f.ulp x) * f.ulp x

/-- `x` has a significand of `precision` bits at a last place the format has. -/
def Represents (x : K) : Prop :=
  ∃ m k : ℤ, |m| < 2 ^ f.precision ∧ f.least ≤ k ∧ x = m * 2 ^ k

/-- `x` is a multiple of the least place. -/
def Multiple (x : K) : Prop := ∃ m : ℤ, x = m * 2 ^ f.least

variable {f}

omit [IsStrictOrderedRing K] in
@[simp] theorem exponent_neg (x : K) : f.exponent (-x) = f.exponent x := by
  simp [exponent]

omit [IsStrictOrderedRing K] in
@[simp] theorem ulp_neg (x : K) : f.ulp (-x) = f.ulp x := by
  simp [ulp]

omit [FloorRing K] in
theorem two_zpow_pos (k : ℤ) : (0 : K) < 2 ^ k := zpow_pos two_pos k

theorem ulp_pos (x : K) : 0 < f.ulp x := two_zpow_pos _

omit [FloorRing K] in
/-- An integer at one place is an integer at every lower place. -/
theorem multiple_of_place {m k j : ℤ} (h : j ≤ k) :
    ∃ n : ℤ, (m : K) * 2 ^ k = n * 2 ^ j := by
  refine ⟨m * 2 ^ (k - j).toNat, ?_⟩
  have hk : k = (k - j).toNat + j := by omega
  push_cast
  conv_lhs => rw [hk, zpow_add₀ two_ne_zero, zpow_natCast]
  ring

theorem abs_lt_exponent (x : K) : |x| < 2 ^ (f.exponent x + 1) := by
  have hlog : |x| < (2 : ℕ) ^ (Int.log 2 |x| + 1) := Int.lt_zpow_succ_log_self one_lt_two |x|
  refine lt_of_lt_of_le (by exact_mod_cast hlog) (zpow_le_zpow_right₀ one_le_two ?_)
  exact add_le_add_left (le_max_left _ _) 1

/-- A number whose exponent is above the least has it as its size. -/
theorem exponent_le_abs {x : K} (h : f.emin < f.exponent x) (hx : x ≠ 0) :
    2 ^ f.exponent x ≤ |x| := by
  have hlog : f.exponent x = Int.log 2 |x| := by
    unfold exponent at h ⊢
    omega
  rw [hlog]
  exact_mod_cast Int.zpow_log_le_self (b := 2) one_lt_two (abs_pos.mpr hx)

theorem exponent_mono {x y : K} (hx : 0 < x) (h : x ≤ y) : f.exponent x ≤ f.exponent y := by
  unfold exponent
  rw [abs_of_pos hx, abs_of_pos (lt_of_lt_of_le hx h)]
  exact max_le_max_right _ (Int.log_mono_right hx h)

/-- A number in last places of its size. -/
theorem abs_div_ulp_lt (x : K) : |x / f.ulp x| < 2 ^ f.precision := by
  rw [abs_div, abs_of_pos (ulp_pos x), div_lt_iff₀ (ulp_pos x), ulp, ← zpow_natCast,
    ← zpow_add₀ two_ne_zero]
  have hsum : (f.precision : ℤ) + (f.exponent x + 1 - f.precision) = f.exponent x + 1 := by ring
  rw [hsum]
  exact abs_lt_exponent x

omit [IsStrictOrderedRing K] in
theorem least_le_place (x : K) : f.least ≤ f.exponent x + 1 - f.precision := by
  have h : f.emin ≤ f.exponent x := le_max_right _ _
  unfold least
  omega

/-! ### What rounding gives -/

@[simp] theorem round_zero : f.round (0 : K) = 0 := by
  have h : nearestEven (0 : K) = 0 := by exact_mod_cast nearestEven_intCast (K := K) 0
  simp [round, h]

theorem round_neg (x : K) : f.round (-x) = -f.round x := by
  simp [round, neg_div, nearestEven_neg]

/-- **A rounded number is at most half a last place away.** -/
theorem abs_round_sub_le (x : K) : |f.round x - x| ≤ f.ulp x / 2 := by
  have hulp : 0 < f.ulp x := ulp_pos x
  have h : f.round x - x = (nearestEven (x / f.ulp x) - x / f.ulp x) * f.ulp x := by
    rw [round, sub_mul, div_mul_cancel₀ _ hulp.ne']
  rw [h, abs_mul, abs_of_pos hulp]
  have hnear := mul_le_mul_of_nonneg_right (abs_nearestEven_sub_le (x / f.ulp x)) hulp.le
  linarith

theorem round_nonneg {x : K} (h : 0 ≤ x) : 0 ≤ f.round x := by
  have hdiv : ((0 : ℤ) : K) ≤ x / f.ulp x := by
    rw [Int.cast_zero]
    exact div_nonneg h (ulp_pos x).le
  have hint : (0 : K) ≤ nearestEven (x / f.ulp x) := by
    exact_mod_cast le_nearestEven_of_le hdiv
  exact mul_nonneg hint (ulp_pos x).le

/-- Rounding a number of the size `2 ^ k` stays at or below `2 ^ (k + 1)`. -/
theorem abs_nearestEven_le (x : K) : |nearestEven (x / f.ulp x)| ≤ 2 ^ f.precision := by
  have h := abs_lt.mp (abs_div_ulp_lt (f := f) x)
  rw [abs_le]
  constructor
  · refine le_nearestEven_of_le ?_
    push_cast
    exact h.1.le
  · refine nearestEven_le_of_le ?_
    push_cast
    exact h.2.le

/-- **A rounded number is one of the format.** -/
theorem round_represents (x : K) : f.Represents (f.round x) := by
  have hplace := least_le_place (f := f) x
  rcases lt_or_eq_of_le (abs_nearestEven_le (f := f) x) with h | h
  · exact ⟨_, _, h, hplace, rfl⟩
  · -- the significand overflows into the next exponent
    obtain ⟨q, hq⟩ : ∃ q, f.precision = q + 1 :=
      Nat.exists_eq_succ_of_ne_zero f.precision_pos.ne'
    obtain ⟨s, hs, hs'⟩ : ∃ s : ℤ, |s| = 2 ^ q ∧ nearestEven (x / f.ulp x) = s * 2 := by
      rcases abs_choice (nearestEven (x / f.ulp x)) with habs | habs
      · refine ⟨2 ^ q, abs_of_pos (by positivity), ?_⟩
        rw [← habs, h, hq, pow_succ]
      · refine ⟨-2 ^ q, by rw [abs_neg, abs_of_pos (by positivity)], ?_⟩
        have hneg : nearestEven (x / f.ulp x) = -(2 ^ f.precision) := by omega
        rw [hneg, hq, pow_succ]
        ring
    refine ⟨s, f.exponent x + 1 - f.precision + 1, ?_, by omega, ?_⟩
    · rw [hs, hq]
      exact pow_lt_pow_right₀ one_lt_two (Nat.lt_succ_self q)
    · rw [round, hs', ulp, zpow_add_one₀ two_ne_zero]
      push_cast
      ring

/-- **Rounding leaves the numbers of the format.** -/
theorem round_of_represents {x : K} (h : f.Represents x) : f.round x = x := by
  obtain ⟨m, k, hm, hk, rfl⟩ := h
  by_cases hzero : m = 0
  · simp [hzero]
  have hx : 0 < |(m : K) * 2 ^ k| :=
    abs_pos.mpr (mul_ne_zero (Int.cast_ne_zero.mpr hzero) (two_zpow_pos k).ne')
  have hlt : |(m : K) * 2 ^ k| < ((2 : ℕ) : K) ^ ((f.precision : ℤ) + k) := by
    have htwo : (0 : K) < 2 ^ k := two_zpow_pos k
    rw [abs_mul, abs_of_pos htwo, Nat.cast_ofNat, zpow_add₀ two_ne_zero, zpow_natCast]
    refine mul_lt_mul_of_pos_right ?_ htwo
    exact_mod_cast hm
  have hlog : Int.log 2 |(m : K) * 2 ^ k| < f.precision + k :=
    (Int.lt_zpow_iff_log_lt (b := 2) one_lt_two hx).mp hlt
  have hplace : f.exponent ((m : K) * 2 ^ k) + 1 - f.precision ≤ k := by
    unfold exponent
    unfold least at hk
    omega
  obtain ⟨n, hn⟩ := multiple_of_place (K := K) (m := m) hplace
  have hulp : (m : K) * 2 ^ k / f.ulp ((m : K) * 2 ^ k) = n := by
    rw [div_eq_iff (ulp_pos _).ne', ulp]
    exact hn
  rw [round, hulp, nearestEven_intCast, ← hulp, div_mul_cancel₀ _ (ulp_pos _).ne']

/-! ### Order -/

theorem round_le_of_exponent {x : K} {k : ℤ} (h : f.exponent x < k) :
    f.round x ≤ (2 : K) ^ k := by
  have hint : (nearestEven (x / f.ulp x) : K) ≤ 2 ^ f.precision := by
    exact_mod_cast (abs_le.mp (abs_nearestEven_le (f := f) x)).2
  calc f.round x ≤ 2 ^ f.precision * f.ulp x :=
        mul_le_mul_of_nonneg_right hint (ulp_pos x).le
    _ = 2 ^ (f.exponent x + 1) := by
        rw [ulp, ← zpow_natCast, ← zpow_add₀ two_ne_zero]
        congr 1
        ring
    _ ≤ 2 ^ k := zpow_le_zpow_right₀ one_le_two (by omega)

theorem le_round_of_exponent {x : K} (hx : 0 < x) (h : f.emin < f.exponent x) :
    (2 : K) ^ f.exponent x ≤ f.round x := by
  have hsize : (2 : K) ^ f.exponent x ≤ x := by
    have := exponent_le_abs h hx.ne'
    rwa [abs_of_pos hx] at this
  have hsplit : (2 : K) ^ f.exponent x = 2 ^ (f.precision - 1) * f.ulp x := by
    rw [ulp, ← zpow_natCast, ← zpow_add₀ two_ne_zero]
    congr 1
    have := f.precision_pos
    push_cast [Nat.one_le_iff_ne_zero, this]
    omega
  have hint : (2 : K) ^ (f.precision - 1) ≤ nearestEven (x / f.ulp x) := by
    have hdiv : (((2 : ℤ) ^ (f.precision - 1) : ℤ) : K) ≤ x / f.ulp x := by
      rw [le_div_iff₀ (ulp_pos x)]
      push_cast
      rw [← hsplit]
      exact hsize
    exact_mod_cast le_nearestEven_of_le hdiv
  rw [hsplit]
  exact mul_le_mul_of_nonneg_right hint (ulp_pos x).le

theorem round_mono_nonneg {x y : K} (hx : 0 ≤ x) (h : x ≤ y) : f.round x ≤ f.round y := by
  rcases hx.eq_or_lt with rfl | hx
  · rw [round_zero]
    exact round_nonneg h
  rcases (exponent_mono (f := f) hx h).eq_or_lt with he | he
  · -- one last place
    have hulp : f.ulp x = f.ulp y := by rw [ulp, ulp, he]
    rw [round, round, hulp]
    refine mul_le_mul_of_nonneg_right ?_ (ulp_pos y).le
    exact_mod_cast nearestEven_mono (div_le_div_of_nonneg_right h (ulp_pos y).le)
  · -- a power of two lies between
    have hmin : f.emin < f.exponent y := lt_of_le_of_lt (le_max_right _ _) he
    exact (round_le_of_exponent he).trans (le_round_of_exponent (hx.trans_le h) hmin)

/-- **Rounding keeps the order.** -/
theorem round_mono {x y : K} (h : x ≤ y) : f.round x ≤ f.round y := by
  rcases le_or_gt 0 x with hx | hx
  · exact round_mono_nonneg hx h
  rcases le_or_gt 0 y with hy | hy
  · have hneg : 0 ≤ f.round (-x) := round_nonneg (neg_nonneg.mpr hx.le)
    rw [round_neg] at hneg
    exact (neg_nonneg.mp hneg).trans (round_nonneg hy)
  · have hneg : f.round (-y) ≤ f.round (-x) :=
      round_mono_nonneg (neg_nonneg.mpr hy.le) (neg_le_neg h)
    rw [round_neg, round_neg] at hneg
    exact neg_le_neg_iff.mp hneg

theorem round_le_of_represents {x y : K} (hy : f.Represents y) (h : x ≤ y) : f.round x ≤ y :=
  round_of_represents hy ▸ round_mono h

theorem le_round_of_represents {x y : K} (hy : f.Represents y) (h : y ≤ x) : y ≤ f.round x :=
  round_of_represents hy ▸ round_mono h

/-! ### Multiples of the least place -/

omit [FloorRing K] in
theorem Represents.multiple {x : K} (h : f.Represents x) : f.Multiple x := by
  obtain ⟨m, k, -, hk, rfl⟩ := h
  exact multiple_of_place hk

omit [LinearOrder K] [IsStrictOrderedRing K] [FloorRing K] in
theorem Multiple.add {x y : K} (hx : f.Multiple x) (hy : f.Multiple y) : f.Multiple (x + y) := by
  obtain ⟨m, rfl⟩ := hx
  obtain ⟨n, rfl⟩ := hy
  exact ⟨m + n, by push_cast; ring⟩

omit [LinearOrder K] [IsStrictOrderedRing K] [FloorRing K] in
theorem Multiple.mul_natCast {x : K} (hx : f.Multiple x) (n : ℕ) : f.Multiple (x * n) := by
  obtain ⟨m, rfl⟩ := hx
  exact ⟨m * n, by push_cast; ring⟩

omit [LinearOrder K] [IsStrictOrderedRing K] [FloorRing K] in
theorem Represents.neg {x : K} (h : f.Represents x) : f.Represents (-x) := by
  obtain ⟨m, k, hm, hk, rfl⟩ := h
  exact ⟨-m, k, by rwa [abs_neg], hk, by push_cast; ring⟩

omit [FloorRing K] in
theorem Represents.two_mul {x : K} (h : f.Represents x) : f.Represents (2 * x) := by
  obtain ⟨m, k, hm, hk, rfl⟩ := h
  exact ⟨m, k + 1, hm, by omega, by rw [zpow_add_one₀ two_ne_zero]; ring⟩

/-! ### Rounding in proportion -/

/-- The unit of rounding: half a last place of `1`. -/
def unit (f : BinaryFormat) : K := 2 ^ (-(f.precision : ℤ))

/-- Half the least place. -/
def tiny (f : BinaryFormat) : K := 2 ^ (f.emin - f.precision)

omit [FloorRing K] in
theorem unit_pos : (0 : K) < f.unit := two_zpow_pos _

omit [FloorRing K] in
theorem tiny_pos : (0 : K) < f.tiny := two_zpow_pos _

/-- Half a unit in the last place is the unit roundoff of the number's binade. -/
theorem half_ulp (x : K) : f.ulp x / 2 = f.unit * 2 ^ f.exponent x := by
  have : CharZero K := IsStrictOrderedRing.toCharZero
  rw [ulp, unit, ← zpow_add₀ two_ne_zero, div_eq_iff two_ne_zero, ← zpow_add_one₀ two_ne_zero]
  congr 1
  ring

/-- **From the least normal number on** a number rounds in proportion. -/
theorem within_round_of_normal {x : K} (h : 2 ^ f.emin ≤ |x|) :
    InProportion f.unit x (f.round x) := by
  have hx : 0 < |x| := (two_zpow_pos _).trans_le h
  have hlog : f.exponent x = Int.log 2 |x| := by
    refine max_eq_left ((Int.zpow_le_iff_le_log (b := 2) one_lt_two hx).mp ?_)
    exact_mod_cast h
  have hsize : (2 : K) ^ f.exponent x ≤ |x| := by
    rw [hlog]
    exact_mod_cast Int.zpow_log_le_self (b := 2) one_lt_two hx
  calc |f.round x - x| ≤ f.ulp x / 2 := abs_round_sub_le x
    _ = f.unit * 2 ^ f.exponent x := half_ulp x
    _ ≤ f.unit * |x| := mul_le_mul_of_nonneg_left hsize unit_pos.le

/-- Below it, a multiple of the least place is a number of the format. -/
theorem Multiple.represents {x : K} (hx : f.Multiple x) (h : |x| < 2 ^ f.emin) :
    f.Represents x := by
  obtain ⟨m, rfl⟩ := hx
  refine ⟨m, f.least, ?_, le_refl _, rfl⟩
  have hplace : (0 : K) < 2 ^ f.least := two_zpow_pos _
  rw [abs_mul, abs_of_pos hplace, ← lt_div_iff₀ hplace, ← zpow_sub₀ two_ne_zero] at h
  have hexp : f.emin - f.least ≤ (f.precision : ℤ) := by
    unfold least
    omega
  have hm : |(m : K)| < 2 ^ (f.precision : ℤ) := h.trans_le (zpow_le_zpow_right₀ one_le_two hexp)
  rw [zpow_natCast] at hm
  exact_mod_cast hm

/-- **A multiple of the least place** rounds in proportion, however small. -/
theorem Multiple.within_round {x : K} (hx : f.Multiple x) : InProportion f.unit x (f.round x) := by
  rcases lt_or_ge |x| (2 ^ f.emin) with h | h
  · rw [round_of_represents (hx.represents h), InProportion, sub_self, abs_zero]
    exact mul_nonneg unit_pos.le (abs_nonneg x)
  · exact within_round_of_normal h

/-- **Any number** rounds in proportion but for half the least place. -/
theorem abs_round_sub_le_add (x : K) : |f.round x - x| ≤ f.unit * |x| + f.tiny := by
  rcases lt_or_ge |x| (2 ^ f.emin) with h | h
  · have hexp : f.exponent x = f.emin ∨ x = 0 := by
      by_cases hx : x = 0
      · exact .inr hx
      refine .inl (max_eq_right ?_)
      have hlt : |x| < ((2 : ℕ) : K) ^ f.emin := by exact_mod_cast h
      exact ((Int.lt_zpow_iff_log_lt (b := 2) one_lt_two (abs_pos.mpr hx)).mp hlt).le
    have hnonneg : 0 ≤ f.unit * |x| := mul_nonneg unit_pos.le (abs_nonneg x)
    rcases hexp with hexp | rfl
    · have hulp : f.ulp x / 2 = f.tiny := by
        rw [half_ulp, hexp, unit, tiny, ← zpow_add₀ two_ne_zero]
        congr 1
        ring
      have hle : |f.round x - x| ≤ f.ulp x / 2 := abs_round_sub_le x
      linarith
    · rw [round_zero, sub_self, abs_zero] at *
      exact add_nonneg hnonneg tiny_pos.le
  · have hle : |f.round x - x| ≤ f.unit * |x| := within_round_of_normal h
    have htiny : (0 : K) < f.tiny := tiny_pos
    linarith

/-! ### A scaled quotient -/

/-- `a * n / s`, rounded after each operation. -/
def scaled (f : BinaryFormat) (a : K) (n : ℕ) (s : K) : K := f.round (f.round (a * n) / s)

theorem scaled_nonneg {a s : K} (n : ℕ) (ha : 0 ≤ a) (hs : 0 ≤ s) : 0 ≤ f.scaled a n s :=
  round_nonneg (div_nonneg (round_nonneg (mul_nonneg ha (Nat.cast_nonneg n))) hs)

theorem scaled_mono {a b s : K} (n : ℕ) (hs : 0 ≤ s) (h : a ≤ b) :
    f.scaled a n s ≤ f.scaled b n s :=
  round_mono (div_le_div_of_nonneg_right
    (round_mono (mul_le_mul_of_nonneg_right h (Nat.cast_nonneg n))) hs)

/-- **A scaled quotient** of a multiple that is itself off by a proportion. -/
theorem scaled_sub_le {ε a A s : K} (n : ℕ) (hA : f.Multiple A) (h : InProportion ε a A) :
    |f.scaled A n s - a * n / s| ≤
      ((1 + ε) * (1 + f.unit) ^ 2 - 1) * |a * n / s| + f.tiny := by
  have hu : (0 : K) ≤ f.unit := unit_pos.le
  have hprod : InProportion (ε + f.unit + ε * f.unit) (a * n / s) (f.round (A * n) / s) :=
    ((h.mul n).trans hu (hA.mul_natCast n).within_round).div s
  have hsize : |f.round (A * n) / s| ≤ (1 + (ε + f.unit + ε * f.unit)) * |a * n / s| := by
    have hle := abs_add_le (a * n / s) (f.round (A * n) / s - a * n / s)
    rw [add_sub_cancel] at hle
    unfold InProportion at hprod
    linarith
  have hround : |f.scaled A n s - f.round (A * n) / s| ≤
      f.unit * |f.round (A * n) / s| + f.tiny := abs_round_sub_le_add _
  calc |f.scaled A n s - a * n / s|
      ≤ |f.scaled A n s - f.round (A * n) / s| + |f.round (A * n) / s - a * n / s| :=
        abs_sub_le _ _ _
    _ ≤ f.unit * ((1 + (ε + f.unit + ε * f.unit)) * |a * n / s|) + f.tiny +
          (ε + f.unit + ε * f.unit) * |a * n / s| := by
        have := mul_le_mul_of_nonneg_left hsize hu
        unfold InProportion at hprod
        linarith
    _ = ((1 + ε) * (1 + f.unit) ^ 2 - 1) * |a * n / s| + f.tiny := by ring

end BinaryFormat

end Support
