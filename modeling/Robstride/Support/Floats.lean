import Robstride.Support.ExtRat
import Robstride.Support.Rounding

/-!
# Support — Numbers of a format

The numbers that a variable of a format can hold (`Number`), and their operations: each gives the
number of the format for what the operation on extended rationals gives, an infinity from
`2 ^ (emax + 1)` on.

`clamp?_val`: a clamp in the format is the clamp of the values.
-/

namespace Support

open ExtRat

/-- A clamp keeps the order. -/
theorem ExtRat.clamp?_mono {x y : ExtRat} {lo hi c d : ℚ} (h : lo ≤ hi) (hxy : x.le y = true)
    (hx : x.clamp? (fin lo) (fin hi) = some (fin c))
    (hy : y.clamp? (fin lo) (fin hi) = some (fin d)) : c ≤ d := by
  have hc : x ≠ nan → lo ≤ c ∧ c ≤ hi := fun hne => by
    obtain ⟨q, hq, hmem⟩ := clamp?_fin lo hi hne h
    rw [hx] at hq
    cases hq
    exact hmem
  have hd : y ≠ nan → lo ≤ d ∧ d ≤ hi := fun hne => by
    obtain ⟨q, hq, hmem⟩ := clamp?_fin lo hi hne h
    rw [hy] at hq
    cases hq
    exact hmem
  cases x with
  | nan => simp [ExtRat.le] at hxy
  | negInf =>
      have hlo : lo = c := by simpa [ExtRat.clamp?, ExtRat.lt, not_lt.mpr h] using hx
      cases y with
      | nan => simp [ExtRat.le] at hxy
      | fin _ | posInf | negInf => exact hlo ▸ (hd fun he => by cases he).1
  | posInf =>
      cases y with
      | posInf =>
          rw [hx] at hy
          cases hy
          exact le_rfl
      | fin _ | negInf | nan => simp [ExtRat.le] at hxy
  | fin p =>
      cases y with
      | posInf =>
          have hhi : hi = d := by simpa [ExtRat.clamp?, ExtRat.lt, not_lt.mpr h] using hy
          exact hhi ▸ (hc fun he => by cases he).2
      | fin q =>
          rw [clamp?_rat p h] at hx
          rw [clamp?_rat q h] at hy
          cases hx
          cases hy
          have hpq : p ≤ q := by simpa [ExtRat.le] using hxy
          exact max_le_max_left lo (min_le_min_right hi hpq)
      | negInf | nan => simp [ExtRat.le] at hxy

namespace BinaryFormat

variable (f : BinaryFormat)

/-- What the format keeps of a result. -/
def rounded : ExtRat → ExtRat
  | .fin q => if |f.round q| < 2 ^ (f.emax + 1) then .fin (f.round q) else ofSgn (ExtRat.fin q).sgn
  | .posInf => .posInf
  | .negInf => .negInf
  | .nan => .nan

/-- A variable of the format can hold it. -/
def Holds : ExtRat → Prop
  | .fin q => f.Represents q ∧ |q| < 2 ^ (f.emax + 1)
  | _ => True

/-- The numbers of the format. -/
@[ext] structure Number where
  val : ExtRat
  holds : f.Holds val

variable {f}

theorem ofSgn_holds (s : Int) : f.Holds (ofSgn s) := by
  unfold ofSgn
  split_ifs <;> trivial

theorem rounded_holds (x : ExtRat) : f.Holds (f.rounded x) := by
  cases x with
  | fin q =>
      by_cases h : |f.round q| < 2 ^ (f.emax + 1)
      · simp only [rounded, if_pos h]
        exact ⟨round_represents q, h⟩
      · simp only [rounded, if_neg h]
        exact ofSgn_holds _
  | posInf | negInf | nan => trivial

theorem rounded_not_finite {x : ExtRat} (h : x.isFinite = false) :
    (f.rounded x).isFinite = false := by
  cases x with
  | fin q => cases h
  | posInf | negInf | nan => rfl

/-- A number from `0` on is kept as its rounding, or overflows to the infinity. -/
theorem rounded_nonneg {q : ℚ} (h : 0 ≤ q) :
    f.rounded (fin q) = if f.round q < 2 ^ (f.emax + 1) then fin (f.round q) else posInf := by
  have hround : |f.round q| = f.round q := abs_of_nonneg (round_nonneg h)
  have hsgn : f.round q < 2 ^ (f.emax + 1) ∨ 0 < q := by
    rcases h.eq_or_lt with rfl | hpos
    · exact .inl (by rw [round_zero]; exact two_zpow_pos _)
    · exact .inr hpos
  simp only [rounded, hround]
  split_ifs with hlt
  · rfl
  · simp [sgn, ofSgn, hsgn.resolve_left hlt]

end BinaryFormat

namespace BinaryFormat.Number

variable {f : BinaryFormat}

/-- The number of the format for a result. -/
def ofExt (x : ExtRat) : f.Number := ⟨f.rounded x, rounded_holds x⟩

/-- A literal, or an integer converted to the format. -/
def literal (q : ℚ) : f.Number := ofExt (.fin q)

theorem neg_holds {x : ExtRat} (h : f.Holds x) : f.Holds (-x) := by
  cases x with
  | fin q => exact ⟨h.1.neg, by rw [abs_neg]; exact h.2⟩
  | posInf | negInf | nan => trivial

instance : Neg f.Number := ⟨fun x => ⟨-x.val, neg_holds x.holds⟩⟩
instance : Add f.Number := ⟨fun x y => ofExt (x.val + y.val)⟩
instance : Sub f.Number := ⟨fun x y => ofExt (x.val - y.val)⟩
instance : Mul f.Number := ⟨fun x y => ofExt (x.val * y.val)⟩

/-- Division; `none` at a zero divisor. -/
def div? (x y : f.Number) : Option f.Number := (x.val.div? y.val).map ofExt

/-- Division by a literal other than zero. -/
def divLiteral (x : f.Number) (q : ℚ) : f.Number := (x.div? (literal q)).getD (literal 0)

/-- `v` brought into `[lo, hi]`; `none` when `hi < lo`. -/
def clamp? (v lo hi : f.Number) : Option f.Number :=
  if hi.val.lt lo.val then none
  else if v.val.lt lo.val then some lo
  else if hi.val.lt v.val then some hi
  else some v

@[simp] theorem val_neg (x : f.Number) : (-x).val = -x.val := rfl
@[simp] theorem val_add (x y : f.Number) : (x + y).val = f.rounded (x.val + y.val) := rfl
@[simp] theorem val_mul (x y : f.Number) : (x * y).val = f.rounded (x.val * y.val) := rfl
@[simp] theorem val_ofExt (x : ExtRat) : (ofExt x : f.Number).val = f.rounded x := rfl

theorem clamp?_val (v lo hi : f.Number) :
    (v.clamp? lo hi).map val = v.val.clamp? lo.val hi.val := by
  unfold clamp? ExtRat.clamp?
  split_ifs <;> rfl

end BinaryFormat.Number

end Support
