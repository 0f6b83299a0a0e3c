import Mathlib.Data.Fin.Basic

/-!
# Support — Objects in memory

An object of `n` bytes on a little-endian machine.  `toBytes` and `ofBytes` are inverse to each
other; `memcpy` replaces the first bytes of one object by those of another.
-/

namespace Support

variable {n k : ℕ}

/-- The bytes of a value, the least significant first. -/
def toBytes (v : BitVec (8 * n)) (i : Fin n) : BitVec 8 := v.extractLsb' (8 * i) 8

/-- The value with these bytes. -/
def ofBytes : {n : ℕ} → (Fin n → BitVec 8) → BitVec (8 * n)
  | 0, _ => 0#0
  | _ + 1, b => ofBytes (fun i => b i.succ) ++ b 0

/-- `memcpy(dst, src, size)`. -/
def memcpy (dst : Fin n → BitVec 8) (src : Fin k → BitVec 8) (size : ℕ) (_hdst : size ≤ n)
    (hsrc : size ≤ k) (i : Fin n) : BitVec 8 :=
  if hi : i.val < size then src ⟨i, lt_of_lt_of_le hi hsrc⟩ else dst i

theorem getLsbD_toBytes (v : BitVec (8 * n)) (i : Fin n) {j : ℕ} (hj : j < 8) :
    (toBytes v i).getLsbD j = v.getLsbD (8 * i + j) := by
  rw [toBytes, BitVec.getLsbD_extractLsb']
  simp [hj]

theorem getLsbD_ofBytes (b : Fin n → BitVec 8) (i : Fin n) {j : ℕ} (hj : j < 8) :
    (ofBytes b).getLsbD (8 * i + j) = (b i).getLsbD j := by
  induction n with
  | zero => exact i.elim0
  | succ n ih =>
      rw [ofBytes, BitVec.getLsbD_append]
      cases i using Fin.cases with
      | zero => simp [hj]
      | succ i =>
          have hlater : ¬ 8 * (i.succ : ℕ) + j < 8 := by
            rw [Fin.val_succ]
            omega
          have hplace : 8 * (i.succ : ℕ) + j - 8 = 8 * i + j := by
            rw [Fin.val_succ]
            omega
          simp only [hlater, if_false, hplace]
          exact ih (fun i => b i.succ) i

@[simp] theorem toBytes_ofBytes (b : Fin n → BitVec 8) : toBytes (ofBytes b) = b := by
  funext i
  refine BitVec.eq_of_getLsbD_eq fun j hj => ?_
  rw [getLsbD_toBytes _ i hj, getLsbD_ofBytes b i hj]

/-- A value is its bytes. -/
theorem toBytes_injective {v w : BitVec (8 * n)} (h : ∀ i, toBytes v i = toBytes w i) : v = w := by
  refine BitVec.eq_of_getLsbD_eq fun p hp => ?_
  have hbyte : p / 8 < n := by omega
  have hj : p % 8 < 8 := Nat.mod_lt p (by omega)
  have hbit := congrArg (fun b => b.getLsbD (p % 8)) (h ⟨p / 8, hbyte⟩)
  simp only [getLsbD_toBytes _ _ hj, Nat.div_add_mod] at hbit
  exact hbit

@[simp] theorem ofBytes_toBytes (v : BitVec (8 * n)) : ofBytes (toBytes v) = v :=
  toBytes_injective fun i => congrFun (toBytes_ofBytes (toBytes v)) i

theorem memcpy_of_lt {dst : Fin n → BitVec 8} {src : Fin k → BitVec 8} {size : ℕ}
    {hdst : size ≤ n} {hsrc : size ≤ k} {i : Fin n} (hi : i.val < size) :
    memcpy dst src size hdst hsrc i = src ⟨i, lt_of_lt_of_le hi hsrc⟩ := dif_pos hi

/-- A copy of a whole object. -/
theorem memcpy_all (dst : Fin n → BitVec 8) (src : Fin k → BitVec 8) (hsrc : n ≤ k) :
    memcpy dst src n le_rfl hsrc = fun i => src (Fin.castLE hsrc i) := by
  funext i
  exact memcpy_of_lt i.isLt

end Support
