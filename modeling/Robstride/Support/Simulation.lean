import Mathlib.Data.List.Basic

/-!
# Support — Simulation

A machine that takes calls one after another, and what it is meant to do as a relation on
abstract states.  A call of the machine may have no result; in a simulation it has one, and the
abstract state can follow it (`Simulates.run`).
-/

namespace Support

variable {σ τ ι ω : Type}

/-- The answers to the calls in order, and the state after them; `none` where a call has no
result. -/
def runCalls (step : σ → ι → Option (ω × σ)) : σ → List ι → Option (List ω × σ)
  | s, [] => some ([], s)
  | s, i :: is => do
      let here ← step s i
      let later ← runCalls step here.2 is
      return (here.1 :: later.1, later.2)

/-- The relation follows the calls, with their answers. -/
inductive Run (spec : τ → ι → ω → τ → Prop) : τ → List ι → List ω → τ → Prop where
  | nil {t : τ} : Run spec t [] [] t
  | cons {t t' t'' : τ} {i : ι} {o : ω} {is : List ι} {os : List ω} (h : spec t i o t')
      (hrun : Run spec t' is os t'') : Run spec t (i :: is) (o :: os) t''

/-- On the calls allowed, `step` has a result, and `spec` follows it along `R`. -/
def Simulates (step : σ → ι → Option (ω × σ)) (spec : τ → ι → ω → τ → Prop) (allowed : ι → Prop)
    (R : σ → τ → Prop) : Prop :=
  ∀ s t i, allowed i → R s t → ∃ o s' t', step s i = some (o, s') ∧ spec t i o t' ∧ R s' t'

section

variable {step : σ → ι → Option (ω × σ)} {spec : τ → ι → ω → τ → Prop} {allowed : ι → Prop}
  {R : σ → τ → Prop}

theorem runCalls_cons {s s' : σ} {i : ι} {o : ω} (h : step s i = some (o, s')) (is : List ι) :
    runCalls step s (i :: is) =
      (runCalls step s' is).map (fun later => (o :: later.1, later.2)) := by
  rw [runCalls, h, Option.bind_eq_bind, Option.bind_some]
  cases runCalls step s' is <;> rfl

/-- **Simulation**: a run of allowed calls has a result, and the abstract state follows it. -/
theorem Simulates.run (hsim : Simulates step spec allowed R) {s : σ} {t : τ} {is : List ι}
    (hallowed : ∀ i ∈ is, allowed i) (hR : R s t) :
    ∃ os s' t', runCalls step s is = some (os, s') ∧ Run spec t is os t' ∧ R s' t' := by
  induction is generalizing s t with
  | nil => exact ⟨[], s, t, rfl, .nil, hR⟩
  | cons i is ih =>
      obtain ⟨o, s', t', hstep, hspec, hR'⟩ := hsim s t i (hallowed i List.mem_cons_self) hR
      obtain ⟨os, s'', t'', hrun, hspecs, hR''⟩ :=
        ih (fun j hj => hallowed j (List.mem_cons_of_mem i hj)) hR'
      refine ⟨o :: os, s'', t'', ?_, .cons hspec hspecs, hR''⟩
      rw [runCalls_cons hstep, hrun]
      rfl

end

end Support
