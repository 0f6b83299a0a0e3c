import Mathlib.Data.Rat.Floor
import Mathlib.Algebra.Order.Field.Rat
import Mathlib.Algebra.Order.Floor.Semiring
import Mathlib.Tactic.Linarith
import Mathlib.Tactic.FieldSimp
import Mathlib.Tactic.Ring
import Mathlib.Tactic.Positivity

/-!
# Support — Extended rationals

Numbers as floating-point code computes with them, rounding left out: the rationals, the two
infinities and NaN.  Comparisons are false at NaN; an operation without a value (`∞ - ∞`,
`0 * ∞`, `∞ / ∞`) is NaN.

Three operations are partial, `none` standing for an evaluation that has no defined result:
* `div?`: a zero divisor;
* `clamp?`: a low bound above the high bound;
* `toUInt?`: a conversion to an unsigned integer whose truncation is not representable, NaN and
  the infinities included.
-/

namespace Support

/-- A rational, an infinity, or NaN. -/
inductive ExtRat where
  | fin (q : ℚ)
  | posInf
  | negInf
  | nan
  deriving DecidableEq

namespace ExtRat

/-- `a < b` on the ordered part; false when either is NaN. -/
def lt : ExtRat → ExtRat → Bool
  | .fin a, .fin b => a < b
  | .negInf, .fin _ | .negInf, .posInf | .fin _, .posInf => true
  | _, _ => false

/-- `a ≤ b` on the ordered part; false when either is NaN. -/
def le : ExtRat → ExtRat → Bool
  | .fin a, .fin b => a ≤ b
  | .negInf, .nan | .nan, _ | .posInf, .fin _ | .posInf, .negInf | .posInf, .nan
  | .fin _, .negInf | .fin _, .nan => false
  | _, _ => true

/-- The sign changed. -/
def neg : ExtRat → ExtRat
  | .fin a => .fin (-a)
  | .posInf => .negInf
  | .negInf => .posInf
  | .nan => .nan

/-- A sum; NaN at two infinities of opposite signs. -/
def add : ExtRat → ExtRat → ExtRat
  | .fin a, .fin b => .fin (a + b)
  | .posInf, .fin _ | .fin _, .posInf | .posInf, .posInf => .posInf
  | .negInf, .fin _ | .fin _, .negInf | .negInf, .negInf => .negInf
  | _, _ => .nan

/-- The sign of a number, `0` at NaN. -/
def sgn : ExtRat → Int
  | .fin a => if 0 < a then 1 else if a < 0 then -1 else 0
  | .posInf => 1
  | .negInf => -1
  | .nan => 0

/-- The infinity of a sign; NaN at the sign `0`. -/
def ofSgn (s : Int) : ExtRat :=
  if 0 < s then .posInf else if s < 0 then .negInf else .nan

/-- A product; NaN at zero times an infinity. -/
def mul : ExtRat → ExtRat → ExtRat
  | .fin a, .fin b => .fin (a * b)
  | x, y => ofSgn (x.sgn * y.sgn)

instance : Neg ExtRat := ⟨neg⟩
instance : Add ExtRat := ⟨add⟩
instance : Sub ExtRat := ⟨fun x y => x + -y⟩
instance : Mul ExtRat := ⟨mul⟩

/-- Division; `none` at a zero divisor. -/
def div? : ExtRat → ExtRat → Option ExtRat
  | .fin a, .fin b => if b = 0 then none else some (.fin (a / b))
  | .fin _, .posInf | .fin _, .negInf => some (.fin 0)
  | x, .fin b => if b = 0 then none else some (ofSgn (x.sgn * (ExtRat.fin b).sgn))
  | _, _ => some .nan

/-- Division by a constant other than zero. -/
instance : HDiv ExtRat ℚ ExtRat := ⟨fun x b => (x.div? (.fin b)).getD .nan⟩

/-- `v` brought into `[lo, hi]`; `none` when `hi < lo`.  A NaN passes through. -/
def clamp? (v lo hi : ExtRat) : Option ExtRat :=
  if hi.lt lo then none
  else if v.lt lo then some lo
  else if hi.lt v then some hi
  else some v

/-- Truncation to a `w`-bit unsigned integer; `none` when the truncation is not representable. -/
def toUInt? (w : ℕ) : ExtRat → Option (BitVec w)
  | .fin q => if -1 < q ∧ q < 2 ^ w then some (BitVec.ofNat w ⌊q⌋₊) else none
  | _ => none

/-! ### Finite numbers compute as rationals -/

@[simp] theorem neg_fin (a : ℚ) : -(fin a) = fin (-a) := rfl
@[simp] theorem add_fin (a b : ℚ) : fin a + fin b = fin (a + b) := rfl
@[simp] theorem sub_fin (a b : ℚ) : fin a - fin b = fin (a - b) := by
  rw [sub_eq_add_neg]; rfl
@[simp] theorem mul_fin (a b : ℚ) : fin a * fin b = fin (a * b) := rfl
@[simp] theorem lt_fin (a b : ℚ) : (fin a).lt (fin b) = decide (a < b) := rfl

theorem div?_fin {a b : ℚ} (hb : b ≠ 0) : div? (fin a) (fin b) = some (fin (a / b)) := by
  simp [div?, hb]

@[simp] theorem div?_zero (x : ExtRat) : div? x (fin 0) = none := by
  cases x <;> simp [div?]

@[simp] theorem nan_add (x : ExtRat) : nan + x = nan := by cases x <;> rfl
@[simp] theorem add_nan (x : ExtRat) : x + nan = nan := by cases x <;> rfl

@[simp] theorem ofSgn_zero : ofSgn 0 = nan := rfl

@[simp] theorem nan_mul (x : ExtRat) : nan * x = nan := by
  have h : nan * x = ofSgn (0 * x.sgn) := by cases x <;> rfl
  rw [h, Int.zero_mul, ofSgn_zero]

/-- A quotient of NaN, when it has a value, is NaN. -/
theorem nan_div? (y : ExtRat) {z : ExtRat} (h : div? nan y = some z) : z = nan := by
  cases y with
  | fin b =>
      simp only [div?] at h
      split at h
      · cases h
      · simpa [sgn, eq_comm] using h
  | posInf | negInf | nan => exact (Option.some.inj h).symm

@[simp] theorem toUInt?_nan (w : ℕ) : toUInt? w nan = none := rfl
@[simp] theorem toUInt?_posInf (w : ℕ) : toUInt? w posInf = none := rfl
@[simp] theorem toUInt?_negInf (w : ℕ) : toUInt? w negInf = none := rfl

/-- `x` is a rational. -/
def isFinite : ExtRat → Bool
  | .fin _ => true
  | _ => false

theorem add_not_finite (x : ExtRat) {y : ExtRat} (h : y.isFinite = false) :
    (x + y).isFinite = false := by
  cases y with
  | fin b => simp [isFinite] at h
  | posInf | negInf | nan => cases x <;> rfl

theorem ofSgn_not_finite (s : Int) : (ofSgn s).isFinite = false := by
  unfold ofSgn
  split_ifs <;> rfl

/-- A product with an operand that is no rational is no rational. -/
theorem mul_not_finite {x y : ExtRat} (h : x.isFinite = false ∨ y.isFinite = false) :
    (x * y).isFinite = false := by
  cases x with
  | fin a =>
      cases y with
      | fin b => simp [isFinite] at h
      | posInf | negInf | nan => exact ofSgn_not_finite _
  | posInf | negInf | nan => cases y <;> first | rfl | exact ofSgn_not_finite _

/-- A quotient of two numbers that are no rationals is NaN. -/
theorem div?_not_finite {x y : ExtRat} (hx : x.isFinite = false) (hy : y.isFinite = false) :
    div? x y = some nan := by
  cases x with
  | fin a => simp [isFinite] at hx
  | posInf | negInf | nan =>
      cases y with
      | fin b => simp [isFinite] at hy
      | posInf | negInf | nan => rfl

/-- A NaN passes through a clamp whose bounds are in order. -/
theorem clamp?_nan {lo hi : ExtRat} (h : hi.lt lo = false) : clamp? nan lo hi = some nan := by
  cases lo <;> cases hi <;> simp_all [clamp?, lt]

/-- Any number but NaN clamps to a rational of the interval, and a rational of the interval to
itself. -/
theorem clamp?_fin {x : ExtRat} (lo hi : ℚ) (hx : x ≠ nan) (h : lo ≤ hi) :
    ∃ c, clamp? x (fin lo) (fin hi) = some (fin c) ∧ lo ≤ c ∧ c ≤ hi := by
  have hb : (fin hi).lt (fin lo) = false := by simpa using h
  cases x with
  | nan => exact absurd rfl hx
  | posInf => exact ⟨hi, by simp [clamp?, h, lt], h, le_refl hi⟩
  | negInf => exact ⟨lo, by simp [clamp?, h, lt], le_refl lo, h⟩
  | fin q =>
      by_cases h₁ : q < lo
      · exact ⟨lo, by simp [clamp?, h, h₁], le_refl lo, h⟩
      · by_cases h₂ : hi < q
        · exact ⟨hi, by simp [clamp?, h, h₁, h₂], h, le_refl hi⟩
        · exact ⟨q, by simp [clamp?, h, h₁, h₂], not_lt.mp h₁, not_lt.mp h₂⟩

/-- On rationals the clamp is `max lo (min q hi)`. -/
theorem clamp?_rat {lo hi : ℚ} (q : ℚ) (h : lo ≤ hi) :
    clamp? (fin q) (fin lo) (fin hi) = some (fin (max lo (min q hi))) := by
  simp only [clamp?, lt_fin, decide_eq_true_eq, if_neg (not_lt.mpr h)]
  split_ifs with h₁ h₂
  · rw [max_eq_left (le_trans (min_le_left _ _) h₁.le)]
  · rw [min_eq_right h₂.le, max_eq_right h]
  · rw [min_eq_left (not_lt.mp h₂), max_eq_right (not_lt.mp h₁)]

/-- A rational in `[0, 2^w)` truncates to its floor. -/
theorem toUInt?_fin {w : ℕ} {q : ℚ} (h₀ : 0 ≤ q) (h₁ : q < 2 ^ w) :
    toUInt? w (fin q) = some (BitVec.ofNat w ⌊q⌋₊) := by
  have h : -1 < q ∧ q < 2 ^ w := ⟨by linarith, h₁⟩
  simp only [toUInt?, if_pos h]

/-- The floor of a rational of `[0, 2^w)` fits in `w` bits. -/
theorem toNat_floor {w : ℕ} {q : ℚ} (h₀ : 0 ≤ q) (h₁ : q < 2 ^ w) :
    (BitVec.ofNat w ⌊q⌋₊).toNat = ⌊q⌋₊ := by
  refine BitVec.toNat_ofNat .. |>.trans (Nat.mod_eq_of_lt ?_)
  have : (⌊q⌋₊ : ℚ) < 2 ^ w := lt_of_le_of_lt (Nat.floor_le h₀) h₁
  exact_mod_cast this

/-- `raw` is the truncation of a rational in `[0, n]`. -/
def IsTruncation {w : ℕ} (n : ℕ) (raw : BitVec w) : Prop :=
  ∃ q : ℚ, 0 ≤ q ∧ q ≤ n ∧ raw.toNat = ⌊q⌋₊

end ExtRat

end Support
