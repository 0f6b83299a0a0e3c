import Robstride.Serial.Scanning

/-!
# Serial — Joining in the middle of a frame

A receiver that starts inside a frame reads a proper suffix of it, then the later frames.  The
scanner trusts `AT` and a terminator 15 bytes on, and nothing else: the wire format neither escapes
the two in a payload nor carries a checksum.

It returns the later frames, and no word across two of them, exactly when the suffix holds no `AT`
whose terminator the second frame imitates (`resynchronises_iff`).
-/

namespace Robstride

open Support SerialTransport SerialRingBuffer

/-- The bytes of frames back to back, each with the number of its frame. -/
def numbered : ℕ → List Sendable → List (Byte × ℕ)
  | _, [] => []
  | n, f :: fs => (f.encoding.map fun b => (b, n)) ++ numbered (n + 1) fs

/-- What is left of them from byte `k` of the first frame. -/
def joined (k : ℕ) (f₁ : Sendable) (rest : List Sendable) : List (Byte × ℕ) :=
  (numbered 0 (f₁ :: rest)).drop k

/-- The receiver returns the later frames in order, however it reads them, and takes no word with
bytes of two frames. -/
structure Resynchronises (k : ℕ) (f₁ : Sendable) (rest : List Sendable) : Prop where
  yields : ∀ (t : SerialTransport) (calls : List (List Chunk)), 0 ≤ t.fd →
    t.ringBuf.contents = [] → t.NeverClamped calls →
      calls.flatMap bytesOf = f₁.encoding.drop k ++ rest.flatMap Sendable.encoding →
        t.Yields calls (rest.map Sendable.carried)
  unspliced : ∀ w ∈ scan 17 (fun w => isAtFrame (w.map Prod.fst)) (joined k f₁ rest),
    ∀ a ∈ w, ∀ b ∈ w, a.2 = b.2

/-- An `AT` in the first frame, from byte `k` on, and CR LF where its word ends in the second. -/
def Imitates (k : ℕ) (f₁ f₂ : Sendable) : Prop :=
  ∃ q, k ≤ q ∧ f₁.encoding[q]? = some 0x41 ∧ f₁.encoding[q + 1]? = some 0x54 ∧
    f₂.encoding[q - 2]? = some 0x0D ∧ f₂.encoding[q - 1]? = some 0x0A

/-! ### Windows -/

theorem Sendable.encoding_zero (f : Sendable) : f.encoding[0]? = some 0x41 := rfl

theorem Sendable.encoding_one (f : Sendable) : f.encoding[1]? = some 0x54 := rfl

/-- A word that opens in the suffix of the first frame ends in the second. -/
theorem windowAt_suffix_iff {k i : ℕ} {f₁ f₂ : Sendable} {more : List Byte} (hk : 1 ≤ k)
    (hi : i < 17 - k) :
    WindowAt 17 isAtFrame (f₁.encoding.drop k ++ (f₂.encoding ++ more)) i ↔
      f₁.encoding[k + i]? = some 0x41 ∧ f₁.encoding[k + i + 1]? = some 0x54 ∧
        f₂.encoding[k + i - 2]? = some 0x0D ∧ f₂.encoding[k + i - 1]? = some 0x0A := by
  have hlen : (f₁.encoding.drop k).length = 17 - k := by
    rw [List.length_drop, f₁.encoding_length]
  have hfirst : ∀ m < 17 - k,
      (f₁.encoding.drop k ++ (f₂.encoding ++ more))[m]? = f₁.encoding[k + m]? := by
    intro m hm
    rw [List.getElem?_append_left (by omega), List.getElem?_drop]
  have hsecond : ∀ m < 17,
      (f₁.encoding.drop k ++ (f₂.encoding ++ more))[17 - k + m]? = f₂.encoding[m]? := by
    intro m hm
    rw [List.getElem?_append_right (by omega), hlen, Nat.add_sub_cancel_left,
      List.getElem?_append_left (by rw [f₂.encoding_length]; omega)]
  rw [windowAt_iff, hfirst i hi]
  -- The last byte of a frame is LF and the second `T`, so that `AT` lies within one frame.
  rcases Nat.lt_or_ge (i + 1) (17 - k) with hlt | hge
  · rw [hfirst _ hlt, ← Nat.add_assoc]
    rcases Nat.lt_or_ge (k + i) 2 with hone | htwo
    · have hki : k + i = 1 := by omega
      rw [hki, f₁.encoding_one]
      exact ⟨fun h => absurd h.1 (by decide), fun h => absurd h.1 (by decide)⟩
    · rw [show i + 15 = 17 - k + (k + i - 2) by omega, hsecond _ (by omega),
        show i + 16 = 17 - k + (k + i - 1) by omega, hsecond _ (by omega)]
  · have hend : f₁.encoding[k + i + 1]? = none :=
      List.getElem?_eq_none (by rw [f₁.encoding_length]; omega)
    rw [show i + 1 = 17 - k + 0 by omega, hsecond 0 (by omega), f₂.encoding_zero, hend]
    exact ⟨fun h => absurd h.2.1 (by decide), fun h => absurd h.2.1 (by decide)⟩

/-! ### Numbered bytes -/

theorem numbered_fst (n : ℕ) (fs : List Sendable) :
    (numbered n fs).map Prod.fst = fs.flatMap Sendable.encoding := by
  induction fs generalizing n with
  | nil => rfl
  | cons f fs ih =>
      rw [numbered, List.map_append, map_fst_label, ih, List.flatMap_cons]

theorem le_of_mem_numbered {n : ℕ} {fs : List Sendable} {b : Byte × ℕ} (h : b ∈ numbered n fs) :
    n ≤ b.2 := by
  induction fs generalizing n with
  | nil => cases h
  | cons f fs ih =>
      rcases List.mem_append.mp h with h | h
      · obtain ⟨c, -, rfl⟩ := List.mem_map.mp h
        exact le_rfl
      · exact Nat.le_of_succ_le (ih h)

theorem joined_eq {k : ℕ} (hk : k ≤ 17) (f₁ : Sendable) (rest : List Sendable) :
    joined k f₁ rest = ((f₁.encoding.drop k).map fun b => (b, 0)) ++ numbered 1 rest := by
  have hlen : k ≤ (f₁.encoding.map fun b => (b, 0)).length := by
    rwa [List.length_map, f₁.encoding_length]
  rw [joined, numbered, List.drop_append_of_le_length hlen, List.map_drop]

/-- Whole frames are taken one by one. -/
theorem unspliced_numbered {n : ℕ} {fs : List Sendable} {w : List (Byte × ℕ)}
    (hw : w ∈ scan 17 (fun w => isAtFrame (w.map Prod.fst)) (numbered n fs)) :
    ∃ m, ∀ b ∈ w, b.2 = m := by
  induction fs generalizing n with
  | nil => cases hw
  | cons f fs ih =>
      rw [numbered, scan_labelled (by omega) f.encoding_length f.isAtFrame_encoding] at hw
      rcases List.mem_cons.mp hw with rfl | hw
      · refine ⟨n, fun b hb => ?_⟩
        obtain ⟨c, -, rfl⟩ := List.mem_map.mp hb
        rfl
      · exact ih hw

theorem joined_fst (k : ℕ) (f₁ : Sendable) (rest : List Sendable) (hk : k ≤ 17) :
    (joined k f₁ rest).map Prod.fst = f₁.encoding.drop k ++ rest.flatMap Sendable.encoding := by
  rw [joined, List.map_drop, numbered_fst, List.flatMap_cons,
    List.drop_append_of_le_length (by rwa [f₁.encoding_length])]

section

variable {k : ℕ} {f₁ : Sendable} {rest : List Sendable}

theorem label_suffix {j : ℕ} {b : Byte × ℕ} (hk : k ≤ 17) (hj : j < 17 - k)
    (hb : (joined k f₁ rest)[j]? = some b) : b.2 = 0 := by
  have hlen : j < ((f₁.encoding.drop k).map fun b => (b, 0)).length := by
    rwa [List.length_map, List.length_drop, f₁.encoding_length]
  rw [joined_eq hk, List.getElem?_append_left hlen, List.getElem?_map,
    Option.map_eq_some_iff] at hb
  obtain ⟨c, -, rfl⟩ := hb
  rfl

theorem label_later {j : ℕ} {b : Byte × ℕ} (hk : k ≤ 17) (hj : 17 - k ≤ j)
    (hb : (joined k f₁ rest)[j]? = some b) : 1 ≤ b.2 := by
  have hlen : ((f₁.encoding.drop k).map fun b => (b, 0)).length ≤ j := by
    rwa [List.length_map, List.length_drop, f₁.encoding_length]
  rw [joined_eq hk, List.getElem?_append_right hlen] at hb
  exact le_of_mem_numbered (List.mem_of_getElem? hb)

/-! ### Joining -/

/-- No word opens in the suffix exactly when the second frame imitates none of its `AT`s. -/
theorem closed_suffix_iff (hk : 1 ≤ k) :
    (∀ i < 17 - k,
      ¬ WindowAt 17 isAtFrame (f₁.encoding.drop k ++ rest.flatMap Sendable.encoding) i) ↔
    ∀ f₂ ∈ rest.head?, ¬ Imitates k f₁ f₂ := by
  cases rest with
  | nil =>
      constructor
      · intro _ f₂ hf₂
        cases hf₂
      · intro _ i _ hat
        have hlen := hat.1
        rw [List.flatMap_nil, List.append_nil, List.length_drop, f₁.encoding_length] at hlen
        omega
  | cons f₂ more =>
      rw [List.flatMap_cons]
      constructor
      · rintro h f hf ⟨q, hq, hA, hT, hCR, hLF⟩
        obtain rfl := Option.some.inj hf
        have hlt : q < 17 := by
          obtain ⟨hlt, -⟩ := List.getElem?_eq_some_iff.mp hA
          rwa [f₁.encoding_length] at hlt
        obtain ⟨i, rfl⟩ := Nat.exists_eq_add_of_le hq
        exact h i (by omega) ((windowAt_suffix_iff hk (by omega)).mpr ⟨hA, hT, hCR, hLF⟩)
      · intro h i hi hat
        exact h f₂ rfl ⟨k + i, Nat.le_add_right k i, (windowAt_suffix_iff hk hi).mp hat⟩

/-- Then the words taken are those of the later frames. -/
theorem scan_joined (hk : k ≤ 17)
    (h : ∀ i < 17 - k,
      ¬ WindowAt 17 isAtFrame (f₁.encoding.drop k ++ rest.flatMap Sendable.encoding) i) :
    scan 17 (fun w => isAtFrame (w.map Prod.fst)) (joined k f₁ rest) =
      scan 17 (fun w => isAtFrame (w.map Prod.fst)) (numbered 1 rest) := by
  rw [joined_eq hk]
  refine scan_skip (by omega) fun i hi hat => h i ?_ ?_
  · rwa [List.length_map, List.length_drop, f₁.encoding_length] at hi
  · rwa [← joined_eq hk, windowAt_map, joined_fst _ _ _ hk] at hat

/-- A word that opens in the suffix makes the receiver take one across the boundary. -/
theorem spliced_of_windowAt (hk : 1 ≤ k) (hk' : k ≤ 17) {i : ℕ} (hi : i < 17 - k)
    (hat : WindowAt 17 isAtFrame (f₁.encoding.drop k ++ rest.flatMap Sendable.encoding) i) :
    ∃ w ∈ scan 17 (fun w => isAtFrame (w.map Prod.fst)) (joined k f₁ rest),
      ∃ a ∈ w, ∃ b ∈ w, a.2 ≠ b.2 := by
  rw [← joined_fst _ _ _ hk', ← windowAt_map] at hat
  obtain ⟨j, hji, w, hw, hget⟩ := exists_mem_scan (by omega) hat
  obtain ⟨a, ha, hfirst⟩ := hget 0 (by omega)
  obtain ⟨b, hb, hlast⟩ := hget 16 (by omega)
  refine ⟨w, hw, a, ha, b, hb, fun heq => ?_⟩
  have hzero := label_suffix hk' (Nat.lt_of_le_of_lt hji hi) hfirst
  have hone := label_later hk' (by omega) hlast
  omega

end

/-- **Joining the stream** in the middle of the first frame: exactly the later frames are returned,
and no phantom across a boundary, unless the second frame imitates the end of a word that opens in
what is left of the first. -/
theorem resynchronises_iff {k : ℕ} (hk : 1 ≤ k) (hk' : k ≤ 17) (f₁ : Sendable)
    (rest : List Sendable) :
    Resynchronises k f₁ rest ↔ ∀ f₂ ∈ rest.head?, ¬ Imitates k f₁ f₂ := by
  rw [← closed_suffix_iff hk]
  constructor
  · intro h i hi hat
    obtain ⟨w, hw, a, ha, b, hb, hne⟩ := spliced_of_windowAt hk hk' hi hat
    exact hne (h.unspliced w hw a ha b hb)
  · intro h
    refine ⟨?_, ?_⟩
    · intro t calls ht hempty hclamp hread
      rw [yields_iff ht hempty hclamp, hread, scanned,
        scan_skip (by omega) (by rwa [List.length_drop, f₁.encoding_length])]
      exact scanned_encodings rest
    · intro w hw a ha b hb
      rw [scan_joined hk' h] at hw
      obtain ⟨m, hm⟩ := unspliced_numbered hw
      rw [hm a ha, hm b hb]

/-- A frame with `AT` at bytes 9 and 10, and one with CR LF at bytes 7 and 8. -/
def openingFrame : Sendable where
  frame := ⟨0x83FD0105, 8, #v[0, 0, 0x41, 0x54, 0, 0, 0, 0]⟩
  eff := by decide
  dlc_le := by decide

/-- A frame with CR LF at bytes 7 and 8. -/
def closingFrame : Sendable where
  frame := ⟨0x83FD0105, 8, #v[0x0D, 0x0A, 0, 0, 0, 0, 0, 0]⟩
  eff := by decide
  dlc_le := by decide

theorem resynchronises_iff_behind : Resynchronises 10 openingFrame [closingFrame] ↔
    ∀ f₂ ∈ [closingFrame].head?, ¬ Imitates 10 openingFrame f₂ :=
  resynchronises_iff (by decide) (by decide) _ _

/-- **A phantom** is assembled across a boundary: `AT` in the payload of the frame joined, CR LF
in the payload of the next. -/
theorem phantom_spliced : ¬ ∀ (k : ℕ) (f₁ : Sendable) (rest : List Sendable), 1 ≤ k → k ≤ 17 →
    Resynchronises k f₁ rest := by
  intro hall
  have hjoin := hall 1 openingFrame [closingFrame] (by decide) (by decide)
  have hat : WindowAt 17 isAtFrame
      (openingFrame.encoding.drop 1 ++ [closingFrame].flatMap Sendable.encoding) 8 :=
    ⟨by decide, by decide⟩
  obtain ⟨w, hw, a, ha, b, hb, hne⟩ :=
    spliced_of_windowAt (by decide) (by decide) (by decide) hat
  exact hne (hjoin.unspliced w hw a ha b hb)

end Robstride
