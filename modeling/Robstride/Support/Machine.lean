import Mathlib.Data.List.Basic

/-!
# Support — Machines

A machine as a partial step function on events, and its runs as `List.foldlM`: a run has a result
when every event was enabled in its turn.  What each step keeps, a run keeps (`run_induction`).
-/

namespace Support.Machine

variable {σ ε : Type} {next : σ → ε → Option σ} {s k : σ} {e : ε} {es es' : List ε}

theorem run_nil : ([] : List ε).foldlM next s = some k ↔ s = k := by simp

theorem run_cons : (e :: es).foldlM next s = some k ↔
    ∃ s', next s e = some s' ∧ es.foldlM next s' = some k := by
  rw [List.foldlM_cons, Option.bind_eq_bind, Option.bind_eq_some_iff]

theorem run_append : (es ++ es').foldlM next s = some k ↔
    ∃ s', es.foldlM next s = some s' ∧ es'.foldlM next s' = some k := by
  rw [List.foldlM_append, Option.bind_eq_bind, Option.bind_eq_some_iff]

theorem run_snoc : (es ++ [e]).foldlM next s = some k ↔
    ∃ s', es.foldlM next s = some s' ∧ next s' e = some k := by
  simp only [run_append, run_cons, run_nil, exists_eq_right]

/-- **Runs keep** what steps keep. -/
theorem run_induction {P : σ → Prop} (hstep : ∀ s e s', P s → next s e = some s' → P s')
    (h₀ : P s) (hrun : es.foldlM next s = some k) : P k := by
  induction es generalizing s with
  | nil =>
      obtain rfl := run_nil.mp hrun
      exact h₀
  | cons e es ih =>
      obtain ⟨s', hnext, hlater⟩ := run_cons.mp hrun
      exact ih (hstep s e s' h₀ hnext) hlater

end Support.Machine
