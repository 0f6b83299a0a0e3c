import Mathlib.Data.List.Basic
import Mathlib.Data.List.Nodup

/-!
# Support — Logs in blocks

A log whose entries are tagged with their writer.  It is in blocks when it is a concatenation of
one block for each writer that wrote, which is when no writer writes between two entries of
another.
-/

namespace Support

variable {ι α : Type}

/-- The log is a concatenation of blocks, no two of one writer. -/
def InBlocks (log : List (ι × α)) : Prop :=
  ∃ blocks : List (ι × List α), (∀ b ∈ blocks, b.2 ≠ []) ∧ (blocks.map Prod.fst).Nodup ∧
    log = blocks.flatMap fun b => b.2.map (Prod.mk b.1)

namespace InBlocks

variable {log : List (ι × α)} {i : ι} {x : α}

theorem nil : InBlocks ([] : List (ι × α)) := ⟨[], nofun, List.nodup_nil, rfl⟩

/-- A first entry. -/
theorem first (h : InBlocks log) (hi : i ∉ log.map Prod.fst) : InBlocks (log ++ [(i, x)]) := by
  obtain ⟨blocks, hne, hnodup, rfl⟩ := h
  refine ⟨blocks ++ [(i, [x])], ?_, ?_, by simp⟩
  · intro b hb
    rcases List.mem_append.mp hb with hb | hb
    · exact hne b hb
    · simp [List.mem_singleton.mp hb]
  · rw [List.map_append]
    refine hnodup.append (List.nodup_singleton i) fun j hj hj' => hi ?_
    obtain rfl : j = i := List.mem_singleton.mp hj'
    obtain ⟨b, hb, rfl⟩ := List.mem_map.mp hj
    -- A block has an entry, so its writer is one of the log.
    obtain ⟨y, hy⟩ := List.exists_mem_of_ne_nil _ (hne b hb)
    exact List.mem_map.mpr ⟨(b.1, y), List.mem_flatMap.mpr ⟨b, hb, List.mem_map_of_mem hy⟩, rfl⟩

/-- A further entry of the last writer. -/
theorem further (h : InBlocks log) (hi : (log.map Prod.fst).getLast? = some i) :
    InBlocks (log ++ [(i, x)]) := by
  obtain ⟨blocks, hne, hnodup, rfl⟩ := h
  rcases List.eq_nil_or_concat blocks with rfl | ⟨bs, b, rfl⟩
  · simp at hi
  · obtain ⟨ys, y, hb⟩ := (List.eq_nil_or_concat b.2).resolve_left (hne b (by simp))
    obtain rfl : b.1 = i := by simpa [hb] using hi
    refine ⟨bs ++ [(b.1, b.2 ++ [x])], ?_, by simpa using hnodup, by simp⟩
    intro b' hb'
    rcases List.mem_append.mp hb' with hb' | hb'
    · exact hne b' (by simp [hb'])
    · simp [List.mem_singleton.mp hb']

/-- No writer writes between two entries of another. -/
theorem eq_of_between (h : InBlocks log) {j : ι} (hij : [i, j, i].Sublist (log.map Prod.fst)) :
    i = j := by
  obtain ⟨blocks, -, hnodup, rfl⟩ := h
  induction blocks with
  | nil => simp at hij
  | cons b blocks ih =>
      obtain ⟨hb, hnodup⟩ := List.nodup_cons.mp hnodup
      have htags : ∀ k ∈ (blocks.flatMap fun b => b.2.map (Prod.mk b.1)).map Prod.fst, k ≠ b.1 := by
        rintro k hk rfl
        obtain ⟨e, he, hek⟩ := List.mem_map.mp hk
        obtain ⟨b', hb', he'⟩ := List.mem_flatMap.mp he
        obtain ⟨y, -, rfl⟩ := List.mem_map.mp he'
        exact hb (hek ▸ List.mem_map_of_mem hb')
      have hhead : ∀ k ∈ (b.2.map (Prod.mk b.1)).map Prod.fst, k = b.1 := by
        intro k hk
        simp only [List.map_map, List.mem_map, Function.comp] at hk
        obtain ⟨-, -, rfl⟩ := hk
        rfl
      rw [List.flatMap_cons, List.map_append] at hij
      obtain ⟨l₁, l₂, hl, h₁, h₂⟩ := List.sublist_append_iff.mp hij
      -- How many of the three lie in the first block.
      match l₁, hl with
      | [], hl => exact ih hnodup (hl ▸ h₂)
      | [k], hl =>
          simp only [List.cons_append, List.nil_append, List.cons.injEq] at hl
          obtain ⟨rfl, rfl⟩ := hl
          exact absurd (hhead i (h₁.subset (by simp))) (htags i (h₂.subset (by simp)))
      | k :: k' :: l₁, hl =>
          simp only [List.cons_append, List.cons.injEq] at hl
          obtain ⟨rfl, rfl, -⟩ := hl
          exact (hhead i (h₁.subset (by simp))).trans (hhead j (h₁.subset (by simp))).symm

end InBlocks

end Support
