import Robstride.Support.Locks
import Robstride.Support.Log

/-!
# Support — Phases

A protocol that every thread of a pool follows in its actions: a phase says what the thread may
perform, and the action with its answer takes it to the next one.  `Obeys` is the judgement on
programs, with its rule for sequences.  If every operation obeys from the idle phase back to it,
then every run gives each thread a phase that its program obeys from, and an invariant may relate
the phases to the shared state (`path_induction`): that is how what one thread is in the middle of
is known to the steps of the others.
-/

namespace Support.Pool

variable {S : System} {α β : Type}

/-- The phases, where every operation begins and ends, what a thread may perform in each, and
where it goes. -/
structure Phases (S : System) where
  Phase : Type
  idle : Phase
  ok : Phase → S.Act → Prop
  next : Phase → (a : S.Act) → S.Res a → Phase

namespace Phases

variable {F : Phases S}

/-- From the phase, the program performs what the phases allow; `Q` holds of what it returns and of
the phase it ends in. -/
def Obeys (F : Phases S) (Q : α → F.Phase → Prop) : Program S α → F.Phase → Prop
  | .ret x, φ => Q x φ
  | .act a k, φ => F.ok φ a ∧ ∀ r, F.Obeys Q (k r) (F.next φ a r)

theorem Obeys.bind {Q : α → F.Phase → Prop} {Q' : β → F.Phase → Prop} {p : Program S α}
    {f : α → Program S β} {φ : F.Phase} (hp : F.Obeys Q p φ)
    (hf : ∀ x φ', Q x φ' → F.Obeys Q' (f x) φ') : F.Obeys Q' (p >>= f) φ := by
  induction p generalizing φ with
  | ret x => exact hf x φ hp
  | act a k ih => exact ⟨hp.1, fun r => ih r (hp.2 r)⟩

theorem Obeys.mono {Q Q' : α → F.Phase → Prop} {p : Program S α} {φ : F.Phase}
    (hp : F.Obeys Q p φ) (hQ : ∀ x φ', Q x φ' → Q' x φ') : F.Obeys Q' p φ := by
  induction p generalizing φ with
  | ret x => exact hQ x φ hp
  | act a k ih => exact ⟨hp.1, fun r => ih r (hp.2 r)⟩

/-- One action, and what follows its answer. -/
theorem Obeys.act {a : S.Act} {f : S.Res a → Program S β} {Q : β → F.Phase → Prop} {φ : F.Phase}
    (hok : F.ok φ a) (hf : ∀ r, F.Obeys Q (f r) (F.next φ a r)) :
    F.Obeys Q ((Prog.perform a : Program S (S.Res a)) >>= f) φ := ⟨hok, hf⟩

theorem Obeys.perform {a : S.Act} {Q : S.Res a → F.Phase → Prop} {φ : F.Phase} (hok : F.ok φ a)
    (hQ : ∀ r, Q r (F.next φ a r)) :
    F.Obeys Q (Prog.perform a : Program S (S.Res a)) φ := ⟨hok, hQ⟩

/-- Phases are tracked as anything else a program holds. -/
theorem Obeys.of_track {Q : α → F.Phase → Prop} {p : Program S α} {φ : F.Phase}
    (h : p.Track F.ok (fun a r φ => F.next φ a r) Q φ) : F.Obeys Q p φ := by
  induction p generalizing φ with
  | ret x => exact h
  | act a k ih => exact ⟨h.1, fun r => ih r (h.2 r)⟩

/-- Every operation obeys from the idle phase back to it. -/
def Kept (F : Phases S) : Prop :=
  ∀ op, F.Obeys (fun _ φ => φ = F.idle) (S.body op) F.idle

/-- Each thread obeys from its phase. -/
def Follows (F : Phases S) (c : Config S) (φ : ℕ → F.Phase) : Prop :=
  ∀ t, F.Obeys (fun _ φ' => φ' = F.idle) (c.threads t) (φ t)

theorem start_follows (s : S.State) : F.Follows (start s) fun _ => F.idle := fun _ => rfl

theorem Follows.update {c : Config S} {φ : ℕ → F.Phase} (h : F.Follows c φ) {t : ℕ}
    {s : S.State} {p : Program S Unit} {φ' : F.Phase}
    (hp : F.Obeys (fun _ φ' => φ' = F.idle) p φ') :
    F.Follows ⟨s, Function.update c.threads t p⟩ (Function.update φ t φ') := by
  intro u
  rcases eq_or_ne u t with rfl | hu
  · simp only [Function.update_self]
    exact hp
  · simp only [Function.update_of_ne hu]
    exact h u

/-- Where a label takes the threads. -/
def move (F : Phases S) (φ : ℕ → F.Phase) : Label S → ℕ → F.Phase
  | .act t a r => Function.update φ t (F.next (φ t) a r)
  | _ => φ

/-- A step is followed, if it calls an operation that obeys. -/
theorem Follows.step_of {c c' : Config S} {φ : ℕ → F.Phase} (h : F.Follows c φ) {l : Label S}
    (hop : ∀ t op, l = .call t op → F.Obeys (fun _ φ => φ = F.idle) (S.body op) F.idle)
    (hstep : Step c l c') : F.Follows c' (F.move φ l) := by
  cases hstep with
  | @call t op s' u hidle hs =>
      -- The thread is idle, and so is its phase.
      have hφ : φ t = F.idle := by
        have hret := h t
        rw [hidle] at hret
        exact hret
      have hcall := h.update (t := t) (s := s') (hop t op rfl)
      rwa [← hφ, Function.update_eq_self] at hcall
  | @act t a k r s' ch ht hs =>
      have hact := h t
      rw [ht] at hact
      exact h.update (hact.2 r)
  | env hs => exact h

/-- **Every step** is followed. -/
theorem Follows.step (hF : F.Kept) {c c' : Config S} {φ : ℕ → F.Phase} (h : F.Follows c φ)
    {l : Label S} (hstep : Step c l c') : F.Follows c' (F.move φ l) :=
  h.step_of (fun _ op _ => hF op) hstep

/-- **Induction over a log**, with a phase for each thread: a step may use what the phase of its
thread allows, besides the invariant of a discipline and the precondition of its action. -/
theorem path_induction (hF : F.Kept) {D : Discipline S} (hD : D.Kept)
    {C : S.State → Label S → Prop} {P : List (Label S) → S.State → (ℕ → F.Phase) → Prop}
    (hstep : ∀ {ls s φ t a ch r s'}, D.inv s → D.pre s t a → C s (.act t a r) → F.ok (φ t) a →
      P ls s φ → S.perform t a ch s = some (r, s') →
        P (ls ++ [.act t a r]) s' (Function.update φ t (F.next (φ t) a r)))
    (hcall : ∀ {ls s φ t op s'}, P ls s φ → S.call t op s = some s' → P (ls ++ [.call t op]) s' φ)
    (henv : ∀ {ls s φ e s'}, P ls s φ → S.env e s = some s' → P (ls ++ [.env e]) s' φ)
    {s : S.State} (hok : D.Ok (start s)) (hP : P [] s fun _ => F.idle)
    {c : Config S} {ls : List (Label S)} (hpath : Path C (start s) ls c) :
    ∃ φ, F.Follows c φ ∧ P ls c.state φ := by
  induction hpath with
  | nil => exact ⟨_, start_follows s, hP⟩
  | @snoc c₁ c₂ ls l hpath hl hC ih =>
      obtain ⟨φ, hfollows, hP₁⟩ := ih
      have hok₁ := Discipline.path_ok hD hok hpath
      refine ⟨F.move φ l, hfollows.step hF hl, ?_⟩
      cases hl with
      | call hidle hs => exact hcall hP₁ hs
      | @act t a k r s' ch ht hs =>
          have hact := hfollows t
          rw [ht] at hact
          exact hstep hok₁.inv (hok₁.pre ht) hC hact.1 hP₁ hs
      | env hs => exact henv hP₁ hs

end Phases

end Support.Pool
