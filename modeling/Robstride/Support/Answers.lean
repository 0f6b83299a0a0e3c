import Robstride.Support.Log

/-!
# Support — Answers

Runs in which the environment answers the actions only in certain ways.  `Prog.Under` judges a
program under such answers; if it holds of every operation that is called, then in every run every
action performed is one that the judgement allows (`Path.under`).
-/

namespace Support.Pool

variable {S : System} {C : S.State → Label S → Prop} {c c' : Config S} {ls : List (Label S)}
  {ans : (a : S.Act) → S.Res a → Prop} {ok : S.Act → Prop}

/-- One step leaves every thread under the judgement, and what it performs is allowed. -/
theorem Step.under {l : Label S} (h : ∀ t, (c.threads t).Under ans ok fun _ => True)
    (hbody : ∀ t op, l = .call t op → (S.body op).Under ans ok fun _ => True)
    (hans : ∀ t a r, ok a → l = .act t a r → ans a r) (hstep : Step c l c') :
    (∀ t, (c'.threads t).Under ans ok fun _ => True) ∧ ∀ t a r, l = .act t a r → ok a := by
  cases hstep with
  | @call t op s u hidle hs =>
      refine ⟨fun v => ?_, fun _ _ _ heq => by cases heq⟩
      by_cases hv : v = t
      · subst hv
        simp only [Function.update_self]
        exact hbody v op rfl
      · simp only [Function.update_of_ne hv]
        exact h v
  | @act t a k r s ch ht hs =>
      have hunder := h t
      rw [ht] at hunder
      refine ⟨fun v => ?_, ?_⟩
      · by_cases hv : v = t
        · subst hv
          simp only [Function.update_self]
          exact hunder.2 r (hans v a r hunder.1 rfl)
        · simp only [Function.update_of_ne hv]
          exact h v
      · rintro u b q ⟨⟩
        exact hunder.1
  | env hs => exact ⟨h, fun _ _ _ heq => by cases heq⟩

/-- **Every action performed** is allowed, as long as the answers are as the operations assume. -/
theorem Path.under {s : S.State} (h : Path C (start s) ls c)
    (hbody : ∀ s t op, C s (.call t op) → (S.body op).Under ans ok fun _ => True)
    (hans : ∀ s t a r, ok a → C s (.act t a r) → ans a r) :
    (∀ t, (c.threads t).Under ans ok fun _ => True) ∧ ∀ t a r, .act t a r ∈ ls → ok a := by
  induction h with
  | nil => exact ⟨fun _ => trivial, fun _ _ _ hmem => absurd hmem List.not_mem_nil⟩
  | @snoc c₁ c₂ ls l _ hstep hC ih =>
      obtain ⟨hthreads, hacts⟩ := ih
      have hnext := hstep.under hthreads (fun t op heq => hbody _ t op (heq ▸ hC))
        (fun t a r hok heq => hans _ t a r hok (heq ▸ hC))
      refine ⟨hnext.1, fun t a r hmem => ?_⟩
      rcases List.mem_append.mp hmem with hmem | hmem
      · exact hacts t a r hmem
      · exact hnext.2 t a r (List.mem_singleton.mp hmem).symm

/-- Where every operation performs allowed actions only, whatever the answers. -/
theorem Path.all {s : S.State} (h : Path C (start s) ls c)
    (hbody : ∀ s t op, C s (.call t op) → (S.body op).All ok) :
    ∀ t a r, .act t a r ∈ ls → ok a := by
  have hunder : ∀ s t op, C s (.call t op) →
      (S.body op).Under (fun _ _ => True) ok fun _ => True :=
    fun s t op hC => (hbody s t op hC).under
  exact (h.under hunder fun _ _ _ _ _ _ => trivial).2

end Support.Pool
