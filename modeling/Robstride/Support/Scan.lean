import Robstride.Support.Window

/-!
# Support — The words of a stream

`scan` takes from a list its first window, then the first window of what follows it, and so on:
the words a scanner finds in a stream that it has whole.

* `scan_skip`, `scan_window`: the scan over a prefix no window starts in, and over a word.
* `scan_map`: the scan does not look at what the test ignores, so elements may carry a label.
-/

namespace Support

variable {α β : Type} {n : ℕ} {P : List α → Bool}

/-- The words found with the given number of looks. -/
def scanFor (n : ℕ) (P : List α → Bool) : ℕ → List α → List (List α)
  | 0, _ => []
  | looks + 1, xs =>
      match firstWindow n P xs with
      | none => []
      | some (w, rest) => w :: scanFor n P looks rest

/-- The words of a list. -/
def scan (n : ℕ) (P : List α → Bool) (xs : List α) : List (List α) := scanFor n P xs.length xs

theorem rest_length_lt (hn : 0 < n) {xs w rest : List α}
    (h : firstWindow n P xs = some (w, rest)) : rest.length < xs.length := by
  obtain ⟨i, hi, -, -, rfl⟩ := firstWindow_eq_some h
  have hlen := hi.1
  rw [List.length_drop]
  omega

/-- More looks than elements find no more. -/
theorem scanFor_eq (hn : 0 < n) {looks looks' : ℕ} {xs : List α} (h : xs.length ≤ looks)
    (h' : xs.length ≤ looks') : scanFor n P looks xs = scanFor n P looks' xs := by
  induction looks generalizing looks' xs with
  | zero =>
      obtain rfl := List.eq_nil_of_length_eq_zero (Nat.le_zero.mp h)
      cases looks' <;> rfl
  | succ looks ih =>
      cases looks' with
      | zero =>
          obtain rfl := List.eq_nil_of_length_eq_zero (Nat.le_zero.mp h')
          rfl
      | succ looks' =>
          rw [scanFor, scanFor]
          cases hf : firstWindow n P xs with
          | none => rfl
          | some p =>
              obtain ⟨w, rest⟩ := p
              have hlt := rest_length_lt hn hf
              exact congrArg (w :: ·) (ih (by omega) (by omega))

/-- Nothing is found where the first look finds nothing. -/
theorem scan_of_none {xs : List α} (h : firstWindow n P xs = none) : scan n P xs = [] := by
  cases xs with
  | nil => rfl
  | cons x xs => rw [scan, List.length_cons, scanFor, h]

/-- Otherwise the scan goes on behind the first word. -/
theorem scan_of_some (hn : 0 < n) {xs w rest : List α} (h : firstWindow n P xs = some (w, rest)) :
    scan n P xs = w :: scan n P rest := by
  cases xs with
  | nil => cases h
  | cons x xs =>
      have hlt := rest_length_lt hn h
      rw [List.length_cons] at hlt
      rw [scan, List.length_cons, scanFor, h]
      exact congrArg (w :: ·) (scanFor_eq hn (Nat.le_of_lt_succ hlt) le_rfl)

theorem scan_window (hn : 0 < n) {w : List α} (hw : w.length = n) (hP : P w) (rest : List α) :
    scan n P (w ++ rest) = w :: scan n P rest := by
  have hfirst : firstWindow n P ([] ++ w ++ rest) = some (w, rest) :=
    firstWindow_skip hn (fun i hi => absurd hi (Nat.not_lt_zero i)) hw hP
  exact scan_of_some hn hfirst

/-- The first word opens no later than any window. -/
theorem exists_mem_scan (hn : 0 < n) {xs : List α} {i : ℕ} (h : WindowAt n P xs i) :
    ∃ j ≤ i, ∃ w ∈ scan n P xs, ∀ m < n, ∃ a ∈ w, xs[j + m]? = some a := by
  cases hf : firstWindow n P xs with
  | none => exact absurd h ((firstWindow_eq_none_iff hn _).mp hf i)
  | some p =>
      obtain ⟨w, rest⟩ := p
      obtain ⟨j, hj, hfirst, rfl, -⟩ := firstWindow_eq_some hf
      refine ⟨j, not_lt.mp fun hlt => hfirst i hlt h, (xs.drop j).take n, ?_, fun m hm => ?_⟩
      · rw [scan_of_some hn hf]
        exact List.mem_cons_self
      · have hlt : j + m < xs.length := (Nat.add_lt_add_left hm j).trans_le hj.1
        have hget := List.getElem?_eq_getElem hlt
        exact ⟨_, mem_window hm hget, hget⟩

/-! ### Skipping -/

/-- A window behind a prefix. -/
theorem windowAt_append_right (pre xs : List α) (i : ℕ) :
    WindowAt n P (pre ++ xs) (pre.length + i) ↔ WindowAt n P xs i := by
  have hdrop : (pre ++ xs).drop (pre.length + i) = xs.drop i := by
    rw [← List.drop_drop, List.drop_left]
  rw [WindowAt, WindowAt, hdrop, List.length_append, Nat.add_assoc, Nat.add_le_add_iff_left]

/-- The first look passes over a prefix no window starts in. -/
theorem firstWindow_past {pre xs : List α}
    (h : ∀ i < pre.length, ¬ WindowAt n P (pre ++ xs) i) :
    firstWindow n P (pre ++ xs) = firstWindow n P xs := by
  induction pre with
  | nil => rfl
  | cons x pre ih =>
      have hhead : ¬ (n ≤ (x :: (pre ++ xs)).length ∧ P ((x :: (pre ++ xs)).take n)) :=
        fun hw => h 0 (Nat.succ_pos _) ⟨by simpa using hw.1, by simpa using hw.2⟩
      rw [List.cons_append, firstWindow, if_neg hhead]
      refine ih fun i hi hat => h (i + 1) (Nat.succ_lt_succ hi) ?_
      rw [List.cons_append, windowAt_cons_succ]
      exact hat

theorem scan_skip (hn : 0 < n) {pre xs : List α}
    (h : ∀ i < pre.length, ¬ WindowAt n P (pre ++ xs) i) :
    scan n P (pre ++ xs) = scan n P xs := by
  cases hf : firstWindow n P xs with
  | none => rw [scan_of_none hf, scan_of_none ((firstWindow_past h).trans hf)]
  | some p => rw [scan_of_some hn hf, scan_of_some hn ((firstWindow_past h).trans hf)]

/-! ### Labels -/

theorem windowAt_map (f : β → α) (xs : List β) (i : ℕ) :
    WindowAt n (fun w => P (w.map f)) xs i ↔ WindowAt n P (xs.map f) i := by
  rw [WindowAt, WindowAt, List.length_map, List.map_take, List.map_drop]

theorem firstWindow_map (f : β → α) (xs : List β) :
    firstWindow n P (xs.map f) =
      (firstWindow n (fun w => P (w.map f)) xs).map fun p => (p.1.map f, p.2.map f) := by
  induction xs with
  | nil => rfl
  | cons x xs ih =>
      rw [List.map_cons, firstWindow, firstWindow, ← List.map_cons, List.length_map, ← List.map_take,
        ih]
      split_ifs
      · rw [← List.map_drop]
        rfl
      · rfl

/-- **The scan does not see labels.** -/
theorem scan_map (hn : 0 < n) (f : β → α) (xs : List β) :
    scan n P (xs.map f) = (scan n (fun w => P (w.map f)) xs).map (List.map f) := by
  induction hlen : xs.length using Nat.strong_induction_on generalizing xs with
  | h len ih =>
      have hmap := firstWindow_map (n := n) (P := P) f xs
      cases hf : firstWindow n (fun w => P (w.map f)) xs with
      | none =>
          rw [hf] at hmap
          rw [scan_of_none hf, scan_of_none hmap, List.map_nil]
      | some p =>
          rw [hf] at hmap
          rw [scan_of_some hn hf, scan_of_some hn hmap, List.map_cons,
            ih p.2.length (hlen ▸ rest_length_lt hn hf) p.2 rfl]

theorem map_fst_label (xs : List α) (l : β) : (xs.map fun x => (x, l)).map Prod.fst = xs := by
  rw [List.map_map]
  exact List.map_id xs

/-- A word with one label on all of it. -/
theorem scan_labelled (hn : 0 < n) {w : List α} (hw : w.length = n) (hP : P w) (l : β)
    (rest : List (α × β)) :
    scan n (fun w => P (w.map Prod.fst)) ((w.map fun x => (x, l)) ++ rest) =
      (w.map fun x => (x, l)) :: scan n (fun w => P (w.map Prod.fst)) rest := by
  refine scan_window hn (by rwa [List.length_map]) ?_ rest
  rwa [map_fst_label]

end Support
