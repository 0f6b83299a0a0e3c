import Mathlib.Data.List.Basic
import Mathlib.Data.List.Infix
import Mathlib.Tactic.Linarith

/-!
# Support — Windows of a list

The scanner of a framed stream: the first window of `n` consecutive elements that passes a
test, with what follows it.

* `firstWindow_eq_none_iff`, `firstWindow_eq_some`: what the scan finds, in positions.
* `firstWindow_skip`: the scan passes over a prefix no window starts in.
* `firstWindow_append`: elements that arrive later do not change what was found.
-/

namespace Support

variable {α : Type} {n : ℕ} {P : List α → Bool}

/-- The first window of length `n` that passes `P`, and the list after it. -/
def firstWindow (n : ℕ) (P : List α → Bool) : List α → Option (List α × List α)
  | [] => none
  | x :: xs =>
      if n ≤ (x :: xs).length ∧ P ((x :: xs).take n) then
        some ((x :: xs).take n, (x :: xs).drop n)
      else firstWindow n P xs

/-- A window of `xs` that passes `P` starts at `i`. -/
def WindowAt (n : ℕ) (P : List α → Bool) (xs : List α) (i : ℕ) : Prop :=
  i + n ≤ xs.length ∧ P ((xs.drop i).take n)

theorem mem_window {xs : List α} {j m : ℕ} {a : α} (hm : m < n) (ha : xs[j + m]? = some a) :
    a ∈ (xs.drop j).take n := by
  refine List.mem_of_getElem? (i := m) ?_
  rw [List.getElem?_take_of_lt hm, List.getElem?_drop]
  exact ha

theorem windowAt_cons_succ {x : α} {xs : List α} {i : ℕ} :
    WindowAt n P (x :: xs) (i + 1) ↔ WindowAt n P xs i := by
  simp only [WindowAt, List.length_cons, List.drop_succ_cons]
  refine and_congr_left fun _ => ?_
  omega

/-- Elements after a window's end do not matter to it. -/
theorem windowAt_append {xs ys : List α} {i : ℕ} (h : i + n ≤ xs.length) :
    WindowAt n P (xs ++ ys) i ↔ WindowAt n P xs i := by
  have hdrop : ((xs ++ ys).drop i).take n = (xs.drop i).take n := by
    rw [List.drop_append_of_le_length (by omega), List.take_append_of_le_length (by
      rw [List.length_drop]; omega)]
  simp only [WindowAt, hdrop, List.length_append]
  exact and_congr_left fun _ => by omega

theorem firstWindow_eq_none_iff (hn : 0 < n) (xs : List α) :
    firstWindow n P xs = none ↔ ∀ i, ¬ WindowAt n P xs i := by
  induction xs with
  | nil =>
      refine ⟨fun _ i h => ?_, fun _ => rfl⟩
      have := h.1
      simp at this
      omega
  | cons x xs ih =>
      rw [firstWindow]
      split_ifs with hw
      · refine ⟨nofun, fun h => absurd ?_ (h 0)⟩
        exact ⟨by omega, by simpa using hw.2⟩
      · rw [ih]
        refine ⟨fun h i hi => ?_, fun h i hi => h (i + 1) (windowAt_cons_succ.mpr hi)⟩
        cases i with
        | zero => exact hw ⟨by simpa using hi.1, by simpa using hi.2⟩
        | succ i => exact h i (windowAt_cons_succ.mp hi)

/-- What the scan returns is the first window, and the list after it. -/
theorem firstWindow_eq_some {xs w rest : List α} (h : firstWindow n P xs = some (w, rest)) :
    ∃ i, WindowAt n P xs i ∧ (∀ j < i, ¬ WindowAt n P xs j) ∧ w = (xs.drop i).take n ∧
      rest = xs.drop (i + n) := by
  induction xs with
  | nil => cases h
  | cons x xs ih =>
      rw [firstWindow] at h
      split_ifs at h with hw
      · obtain ⟨rfl, rfl⟩ := Prod.mk.inj (Option.some.inj h)
        exact ⟨0, ⟨by omega, by simpa using hw.2⟩, fun j hj => by omega, by simp, by simp⟩
      · obtain ⟨i, hi, hmin, hw', hrest⟩ := ih h
        refine ⟨i + 1, windowAt_cons_succ.mpr hi, fun j hj hj' => ?_, by simpa using hw', ?_⟩
        · cases j with
          | zero => exact hw ⟨by simpa using hj'.1, by simpa using hj'.2⟩
          | succ j => exact hmin j (by omega) (windowAt_cons_succ.mp hj')
        · rw [hrest, show i + 1 + n = (i + n) + 1 by omega, List.drop_succ_cons]

/-- A first window is what the scan returns. -/
theorem firstWindow_of_windowAt (hn : 0 < n) {xs : List α} {i : ℕ} (hi : WindowAt n P xs i)
    (hmin : ∀ j < i, ¬ WindowAt n P xs j) :
    firstWindow n P xs = some ((xs.drop i).take n, xs.drop (i + n)) := by
  cases hf : firstWindow n P xs with
  | none => exact absurd hi ((firstWindow_eq_none_iff hn xs).mp hf i)
  | some p =>
      obtain ⟨w, rest⟩ := p
      obtain ⟨k, hk, hkmin, rfl, rfl⟩ := firstWindow_eq_some hf
      have hki : k = i := le_antisymm (not_lt.mp fun h => hkmin i h hi)
        (not_lt.mp fun h => hmin k h hk)
      rw [hki]

/-- The scan passes over a prefix no window starts in. -/
theorem firstWindow_skip (hn : 0 < n) {pre w rest : List α}
    (hpre : ∀ i < pre.length, ¬ WindowAt n P (pre ++ w ++ rest) i) (hw : w.length = n)
    (hP : P w) : firstWindow n P (pre ++ w ++ rest) = some (w, rest) := by
  have hat : WindowAt n P (pre ++ w ++ rest) pre.length := by
    refine ⟨by simp [hw], ?_⟩
    rw [List.append_assoc, List.drop_left, ← hw, List.take_left]
    exact hP
  rw [firstWindow_of_windowAt hn hat hpre]
  congr 2
  · rw [List.append_assoc, List.drop_left, ← hw, List.take_left]
  · rw [← hw, ← List.length_append, List.drop_left]

/-- Later elements do not change what the scan found. -/
theorem firstWindow_append (hn : 0 < n) {xs w rest : List α} (ys : List α)
    (h : firstWindow n P xs = some (w, rest)) :
    firstWindow n P (xs ++ ys) = some (w, rest ++ ys) := by
  obtain ⟨i, hi, hmin, rfl, rfl⟩ := firstWindow_eq_some h
  have hlen := hi.1
  rw [firstWindow_of_windowAt hn ((windowAt_append hlen).mpr hi) fun j hj hj' =>
    hmin j hj ((windowAt_append (by omega)).mp hj')]
  rw [List.drop_append_of_le_length (by omega), List.take_append_of_le_length (by
    rw [List.length_drop]; omega), List.drop_append_of_le_length hlen]

end Support
