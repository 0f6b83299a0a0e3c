import Mathlib.Algebra.Order.Floor.Ring
import Mathlib.Algebra.Order.Floor.Semiring
import Mathlib.Algebra.Order.Field.Basic
import Mathlib.Tactic.FieldSimp
import Mathlib.Tactic.Linarith
import Mathlib.Tactic.Positivity
import Mathlib.Tactic.Ring

/-!
# Support — Levels of an interval

An interval cut in `steps` equal cells.  `level` clamps a number to the interval and truncates its
place to the cell it is in; `value` is the low end of a cell, and the high end of the interval at
the last level.

* `level_mono`, `level_low`, `level_high`: the levels run from `0` to `steps`.
* `level_value`: each level is the level of its value.
* `value_level_le`, `lt_value_level_add`: a number is less than one cell above the value of its
  level.
* `level_value_other_iff`, `value_level_other`: levels of `[-B, B]` read as levels of `[-A, A]`.
-/

namespace Support

variable {K : Type} [Field K] [LinearOrder K] [IsStrictOrderedRing K] [FloorSemiring K]

/-- The number moved into the interval. -/
def clampTo (lo hi x : K) : K := max lo (min x hi)

/-- The place of a number in the interval, in cells from its low end. -/
def place (lo hi : K) (steps : ℕ) (x : K) : K := (x - lo) * steps / (hi - lo)

/-- The cell that the number is in once it is moved into the interval. -/
def level (lo hi : K) (steps : ℕ) (x : K) : ℕ := ⌊place lo hi steps (clampTo lo hi x)⌋₊

/-- The low end of a cell. -/
def value (lo hi : K) (steps n : ℕ) : K := n * ((hi - lo) / steps) + lo

section

variable {lo hi : K} {steps : ℕ}

omit [FloorSemiring K] [IsStrictOrderedRing K] [Field K] in
theorem clampTo_mono {x y : K} (h : x ≤ y) : clampTo lo hi x ≤ clampTo lo hi y :=
  max_le_max_left lo (min_le_min_right hi h)

omit [FloorSemiring K] [IsStrictOrderedRing K] [Field K] in
theorem le_clampTo (x : K) : lo ≤ clampTo lo hi x := le_max_left _ _

omit [FloorSemiring K] [IsStrictOrderedRing K] [Field K] in
theorem clampTo_le (h : lo ≤ hi) (x : K) : clampTo lo hi x ≤ hi := max_le h (min_le_right _ _)

omit [FloorSemiring K] [IsStrictOrderedRing K] [Field K] in
theorem clampTo_of_mem {x : K} (h₁ : lo ≤ x) (h₂ : x ≤ hi) : clampTo lo hi x = x := by
  rw [clampTo, min_eq_left h₂, max_eq_right h₁]

omit [FloorSemiring K] in
theorem place_mono (h : lo < hi) {x y : K} (hxy : x ≤ y) :
    place lo hi steps x ≤ place lo hi steps y := by
  have hspan : 0 < hi - lo := sub_pos.mpr h
  have hsteps : (0 : K) ≤ steps := Nat.cast_nonneg steps
  exact div_le_div_of_nonneg_right
    (mul_le_mul_of_nonneg_right (sub_le_sub_right hxy lo) hsteps) hspan.le

omit [FloorSemiring K] [LinearOrder K] [IsStrictOrderedRing K] in
@[simp] theorem place_low : place lo hi steps lo = 0 := by simp [place]

omit [FloorSemiring K] in
theorem place_high (h : lo < hi) : place lo hi steps hi = steps :=
  mul_div_cancel_left₀ _ (sub_pos.mpr h).ne'

omit [FloorSemiring K] in
theorem place_nonneg (h : lo < hi) {x : K} (hx : lo ≤ x) : 0 ≤ place lo hi steps x := by
  have hle : place lo hi steps lo ≤ place lo hi steps x := place_mono h hx
  rwa [place_low] at hle

/-- A number goes to its place and back. -/
theorem place_scale (h : lo < hi) (hsteps : 0 < steps) (x : K) :
    place lo hi steps x * ((hi - lo) / steps) + lo = x := by
  have hspan : hi - lo ≠ 0 := (sub_pos.mpr h).ne'
  have hs : (steps : K) ≠ 0 := Nat.cast_ne_zero.mpr hsteps.ne'
  rw [place]
  field_simp
  ring

theorem place_value (h : lo < hi) (hsteps : 0 < steps) (n : ℕ) :
    place lo hi steps (value lo hi steps n) = n := by
  have hspan : hi - lo ≠ 0 := (sub_pos.mpr h).ne'
  have hs : (steps : K) ≠ 0 := Nat.cast_ne_zero.mpr hsteps.ne'
  rw [place, value, add_sub_cancel_right]
  field_simp

/-! ### Levels -/

theorem level_mono (h : lo < hi) {x y : K} (hxy : x ≤ y) :
    level lo hi steps x ≤ level lo hi steps y :=
  Nat.floor_mono (place_mono h (clampTo_mono hxy))

theorem level_low (h : lo < hi) {x : K} (hx : x ≤ lo) : level lo hi steps x = 0 := by
  rw [level, clampTo, min_eq_left (hx.trans h.le), max_eq_left hx, place_low, Nat.floor_zero]

theorem level_high (h : lo < hi) {x : K} (hx : hi ≤ x) : level lo hi steps x = steps := by
  rw [level, clampTo, min_eq_right hx, max_eq_right h.le, place_high h, Nat.floor_natCast]

theorem level_le (h : lo < hi) (x : K) : level lo hi steps x ≤ steps := by
  have hle : place lo hi steps (clampTo lo hi x) ≤ place lo hi steps hi :=
    place_mono h (clampTo_le h.le x)
  rw [place_high h] at hle
  exact Nat.floor_le_of_le hle

/-- The level of a number of the interval is the cell it is in. -/
theorem level_eq_iff (h : lo < hi) {x : K} (h₁ : lo ≤ x) (h₂ : x ≤ hi) (n : ℕ) :
    level lo hi steps x = n ↔ n ≤ place lo hi steps x ∧ place lo hi steps x < n + 1 := by
  rw [level, clampTo_of_mem h₁ h₂, Nat.floor_eq_iff (place_nonneg h h₁)]

/-! ### Values -/

theorem value_nonneg_add (h : lo < hi) (n : ℕ) : lo ≤ value lo hi steps n := by
  have hspan : 0 ≤ hi - lo := (sub_pos.mpr h).le
  exact le_add_of_nonneg_left (by positivity)

theorem value_le (h : lo < hi) (hsteps : 0 < steps) {n : ℕ} (hn : n ≤ steps) :
    value lo hi steps n ≤ hi := by
  have hspan : 0 < hi - lo := sub_pos.mpr h
  have hs : (0 : K) < steps := Nat.cast_pos.mpr hsteps
  have hle : (n : K) * ((hi - lo) / steps) ≤ steps * ((hi - lo) / steps) :=
    mul_le_mul_of_nonneg_right (Nat.cast_le.mpr hn) (by positivity)
  rw [mul_div_cancel₀ _ hs.ne'] at hle
  rw [value]
  linarith

/-- **Each level is the level of its value.** -/
theorem level_value (h : lo < hi) (hsteps : 0 < steps) {n : ℕ} (hn : n ≤ steps) :
    level lo hi steps (value lo hi steps n) = n := by
  rw [level, clampTo_of_mem (value_nonneg_add h n) (value_le h hsteps hn), place_value h hsteps,
    Nat.floor_natCast]

/-- The value of a number's level is at most the number. -/
theorem value_level_le (h : lo < hi) (hsteps : 0 < steps) (x : K) :
    value lo hi steps (level lo hi steps x) ≤ clampTo lo hi x := by
  have hcell : 0 ≤ (hi - lo) / (steps : K) :=
    div_nonneg (sub_pos.mpr h).le (Nat.cast_nonneg steps)
  have hfloor : (level lo hi steps x : K) ≤ place lo hi steps (clampTo lo hi x) :=
    Nat.floor_le (place_nonneg h (le_clampTo x))
  calc value lo hi steps (level lo hi steps x)
      ≤ place lo hi steps (clampTo lo hi x) * ((hi - lo) / steps) + lo :=
        add_le_add_left (mul_le_mul_of_nonneg_right hfloor hcell) lo
    _ = clampTo lo hi x := place_scale h hsteps _

/-- **A number is less than one cell above** the value of its level. -/
theorem lt_value_level_add (h : lo < hi) (hsteps : 0 < steps) (x : K) :
    clampTo lo hi x < value lo hi steps (level lo hi steps x) + (hi - lo) / steps := by
  have hcell : 0 < (hi - lo) / (steps : K) :=
    div_pos (sub_pos.mpr h) (Nat.cast_pos.mpr hsteps)
  have hfloor : place lo hi steps (clampTo lo hi x) < level lo hi steps x + 1 :=
    Nat.lt_floor_add_one _
  calc clampTo lo hi x
      = place lo hi steps (clampTo lo hi x) * ((hi - lo) / steps) + lo :=
        (place_scale h hsteps _).symm
    _ < (level lo hi steps x + 1) * ((hi - lo) / steps) + lo :=
        add_lt_add_left (mul_lt_mul_of_pos_right hfloor hcell) lo
    _ = value lo hi steps (level lo hi steps x) + (hi - lo) / steps := by
        rw [value]
        ring

end

/-! ### Another range -/

section

variable {A B : K} {steps : ℕ}

omit [FloorSemiring K] in
/-- The value of a level of `[-A, A]` has moved in `[-B, B]` by its distance from the middle. -/
theorem place_value_other (hB : 0 < B) (hsteps : 0 < steps) (n : ℕ) :
    place (-B) B steps (value (-A) A steps n) = n + (n - steps / 2) * (A / B - 1) := by
  have hs : (steps : K) ≠ 0 := Nat.cast_ne_zero.mpr hsteps.ne'
  have hb : B ≠ 0 := hB.ne'
  rw [place, value]
  field_simp
  ring

/-- Inside `[-B, B]`, a level of `[-A, A]` is the level of its value exactly from the middle of the
range on, until it has moved one cell. -/
theorem level_value_other_iff (hB : 0 < B) (hsteps : 0 < steps) {n : ℕ}
    (h₁ : -B ≤ value (-A) A steps n) (h₂ : value (-A) A steps n ≤ B) :
    level (-B) B steps (value (-A) A steps n) = n ↔
      0 ≤ (n - steps / 2) * (A / B - 1) ∧ (n - steps / 2) * (A / B - 1) < 1 := by
  have hlt : -B < B := neg_lt_self hB
  rw [level_eq_iff hlt h₁ h₂, place_value_other hB hsteps, le_add_iff_nonneg_right,
    add_lt_add_iff_left]

omit [FloorSemiring K] [IsStrictOrderedRing K] [Field K] in
theorem clampTo_cases {lo hi : K} (h : lo ≤ hi) (x : K) :
    (x ≤ lo ∧ clampTo lo hi x = lo) ∨ (hi ≤ x ∧ clampTo lo hi x = hi) ∨
      (lo ≤ x ∧ x ≤ hi ∧ clampTo lo hi x = x) := by
  rcases le_total x lo with h₁ | h₁
  · exact .inl ⟨h₁, by rw [clampTo, min_eq_left (h₁.trans h), max_eq_left h₁]⟩
  rcases le_total hi x with h₂ | h₂
  · exact .inr (.inl ⟨h₂, by rw [clampTo, min_eq_right h₂, max_eq_right h]⟩)
  · exact .inr (.inr ⟨h₁, h₂, clampTo_of_mem h₁ h₂⟩)

omit [FloorSemiring K] in
/-- The place of a number in `[-B, B]` is off its place in `[-A, A]` by what the ranges differ. -/
theorem abs_place_clampTo_sub_le (hA : 0 < A) (hB : 0 < B) (x : K) :
    |place (-B) B steps (clampTo (-B) B x) - place (-A) A steps (clampTo (-A) A x)| ≤
      |B - A| / A * (steps / 2) := by
  have hscale : ∀ {C : K}, 0 < C → ∀ c, place (-C) C steps c = (c / C + 1) * (steps / 2) := by
    intro C hC c
    have hne : C ≠ 0 := hC.ne'
    rw [place]
    field_simp
    ring
  have hcross : |clampTo (-B) B x * A - B * clampTo (-A) A x| ≤ |B - A| * B := by
    have hposA : -A ≤ A := by linarith
    have hposB : -B ≤ B := by linarith
    have hd₁ : (B - A) * B ≤ |B - A| * B := mul_le_mul_of_nonneg_right (le_abs_self _) hB.le
    have hd₂ : -(B - A) * B ≤ |B - A| * B := mul_le_mul_of_nonneg_right (neg_le_abs _) hB.le
    rw [abs_le]
    rcases clampTo_cases hposA x with ⟨h₁, hc⟩ | ⟨h₁, hc⟩ | ⟨h₁, h₁', hc⟩ <;>
    rcases clampTo_cases hposB x with ⟨h₂, hc'⟩ | ⟨h₂, hc'⟩ | ⟨h₂, h₂', hc'⟩ <;>
    rw [hc, hc'] <;> constructor <;> nlinarith
  have hratio : |clampTo (-B) B x / B - clampTo (-A) A x / A| ≤ |B - A| / A := by
    rw [div_sub_div _ _ hB.ne' hA.ne', abs_div, abs_of_pos (mul_pos hB hA),
      div_le_div_iff₀ (mul_pos hB hA) hA]
    calc |clampTo (-B) B x * A - B * clampTo (-A) A x| * A ≤ |B - A| * B * A :=
          mul_le_mul_of_nonneg_right hcross hA.le
      _ = |B - A| * (B * A) := mul_assoc _ _ _
  rw [hscale hB, hscale hA, ← sub_mul, add_sub_add_right_eq_sub, abs_mul,
    abs_of_nonneg (by positivity : (0 : K) ≤ steps / 2)]
  exact mul_le_mul_of_nonneg_right hratio (by positivity)

end

section

variable {F : Type} [Field F] [LinearOrder F] [IsStrictOrderedRing F] [FloorRing F]
variable {A B : F} {steps : ℕ}

/-- The value in `[-A, A]` of the level in `[-B, B]`: the number is stretched, and loses its place
in the cell. -/
theorem value_level_other (hB : 0 < B) (hsteps : 0 < steps) {x : F} (h₁ : -B ≤ x) (h₂ : x ≤ B) :
    value (-A) A steps (level (-B) B steps x) =
      x * (A / B) - Int.fract (place (-B) B steps x) * (2 * A / steps) := by
  have hs : (steps : F) ≠ 0 := Nat.cast_ne_zero.mpr hsteps.ne'
  have hplace : 0 ≤ place (-B) B steps x := place_nonneg (neg_lt_self hB) h₁
  have hfloor : (level (-B) B steps x : F) =
      place (-B) B steps x - Int.fract (place (-B) B steps x) := by
    rw [level, clampTo_of_mem h₁ h₂, Int.self_sub_fract, natCast_floor_eq_intCast_floor hplace]
  have hmoved : place (-B) B steps x * (2 * A / steps) - A = x * (A / B) := by
    rw [place]
    field_simp
    ring
  calc value (-A) A steps (level (-B) B steps x)
      = (place (-B) B steps x - Int.fract (place (-B) B steps x)) * (2 * A / steps) - A := by
        rw [value, hfloor, sub_neg_eq_add, ← two_mul, ← sub_eq_add_neg]
    _ = place (-B) B steps x * (2 * A / steps) - A -
          Int.fract (place (-B) B steps x) * (2 * A / steps) := by ring
    _ = _ := by rw [hmoved]

end

end Support
