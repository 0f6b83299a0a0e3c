import Mathlib.Data.List.Basic
import Mathlib.Data.Nat.ModEq
import Mathlib.Data.Int.ModEq
import Mathlib.Tactic.Linarith

/-!
# Support — Circular buffers

An array of `n` cells read from a head position, wrapping at `n`.  `contents buf h k` lists the
`k` cells from position `h`.  Writing the next free cell appends (`contents_set`); moving the head
drops (`contents_drop`).
-/

namespace Support.Circular

variable {α : Type} {n : ℕ} [NeZero n]

/-- The cell `i` places after position `h`. -/
def cell (buf : Vector α n) (h i : ℕ) : α :=
  have hlt := Nat.mod_lt (h + i) (NeZero.pos n)
  buf[(h + i) % n]

/-- The `k` cells from position `h` on. -/
def contents (buf : Vector α n) (h k : ℕ) : List α := (List.range k).map (cell buf h)

@[simp] theorem contents_length (buf : Vector α n) (h k : ℕ) : (contents buf h k).length = k := by
  simp [contents]

@[simp] theorem contents_zero (buf : Vector α n) (h : ℕ) : contents buf h 0 = [] := rfl

theorem contents_getElem (buf : Vector α n) (h k : ℕ) {i : ℕ}
    (hi : i < (contents buf h k).length) : (contents buf h k)[i] = cell buf h i := by
  simp [contents]

theorem contents_getElem? (buf : Vector α n) (h : ℕ) {k i : ℕ} (hi : i < k) :
    (contents buf h k)[i]? = some (cell buf h i) := by
  rw [List.getElem?_eq_getElem (by simpa using hi), contents_getElem]

omit [NeZero n] in
/-- Two places less than a turn apart are different cells. -/
theorem place_ne {h i k : ℕ} (hik : i < k) (hk : k < n) : (h + k) % n ≠ (h + i) % n := fun he =>
  hik.ne' ((Nat.ModEq.add_left_cancel' h he).eq_of_lt_of_lt hk (hik.trans hk))

/-- Writing the next free cell appends to the contents. -/
theorem contents_set (buf : Vector α n) (h : ℕ) {k : ℕ} (x : α) (hk : k < n) :
    contents (buf.set ((h + k) % n) x (Nat.mod_lt _ (NeZero.pos n))) h (k + 1) =
      contents buf h k ++ [x] := by
  simp only [contents, List.range_succ, List.map_append, List.map_cons, List.map_nil]
  congr 1
  · refine List.map_congr_left fun i hi => ?_
    exact Vector.getElem_set_ne _ _ (place_ne (List.mem_range.mp hi) hk)
  · simp [cell]

/-- Moving the head `j` places drops the first `j` cells. -/
theorem contents_drop (buf : Vector α n) (h k j : ℕ) :
    (contents buf h k).drop j = contents buf ((h + j) % n) (k - j) := by
  refine List.ext_getElem (by simp) fun i h₁ h₂ => ?_
  rw [List.getElem_drop, contents_getElem, contents_getElem]
  simp only [cell, Nat.mod_add_mod, Nat.add_assoc]

end Support.Circular
