import Mathlib.Logic.Relation
import Robstride.Support.Pool

/-!
# Support — Lock orders

A thread pool whose actions take and release locks.  What a thread holds is read off the state, and
a program is `Orderly` if, along every path, it takes a lock only while it holds locks of lower
rank, or takes again a recursive one.

* `Prog.Track`: what a program holds along its paths, with the rules for sequences.
* `Locking.run_ok`: in every run of orderly operations every thread stays orderly.
* `Locking.no_cycle`: then no threads wait for locks in a circle.
-/

namespace Support

namespace Prog

variable {A : Type} {R : A → Type} {α β H : Type} {ok : H → A → Prop}
  {after : (a : A) → R a → H → H}

/-- Along every path from `h`, what is held allows the next action, and what is held at the end
meets `Q`. -/
def Track (ok : H → A → Prop) (after : (a : A) → R a → H → H) (Q : α → H → Prop) :
    Prog A R α → H → Prop
  | ret x, h => Q x h
  | act a k, h => ok h a ∧ ∀ r, (k r).Track ok after Q (after a r h)

theorem Track.bind {Q : α → H → Prop} {Q' : β → H → Prop} {p : Prog A R α} {f : α → Prog A R β}
    {h : H} (hp : p.Track ok after Q h) (hf : ∀ x h', Q x h' → (f x).Track ok after Q' h') :
    (p >>= f).Track ok after Q' h := by
  induction p generalizing h with
  | ret x => exact hf x h hp
  | act a k ih => exact ⟨hp.1, fun r => ih r (hp.2 r)⟩

theorem Track.mono {Q Q' : α → H → Prop} {p : Prog A R α} {h : H} (hp : p.Track ok after Q h)
    (hQ : ∀ x h', Q x h' → Q' x h') : p.Track ok after Q' h := by
  induction p generalizing h with
  | ret x => exact hQ x h hp
  | act a k ih => exact ⟨hp.1, fun r => ih r (hp.2 r)⟩

theorem Track.act {Q : α → H → Prop} {a : A} {f : R a → Prog A R α} {h : H} (hok : ok h a)
    (hf : ∀ r, (f r).Track ok after Q (after a r h)) : (Prog.perform a >>= f).Track ok after Q h :=
  ⟨hok, hf⟩

/-- The program ends with what it started with. -/
def Balanced (ok : H → A → Prop) (after : (a : A) → R a → H → H) (p : Prog A R α) (h : H) : Prop :=
  p.Track ok after (fun _ h' => h' = h) h

theorem Balanced.track {Q : β → H → Prop} {p : Prog A R α} {f : α → Prog A R β} {h : H}
    (hp : p.Balanced ok after h) (hf : ∀ x, (f x).Track ok after Q h) :
    (p >>= f).Track ok after Q h :=
  Track.bind hp fun x _ heq => heq ▸ hf x

theorem Balanced.bind {p : Prog A R α} {f : α → Prog A R β} {h : H}
    (hp : p.Balanced ok after h) (hf : ∀ x, (f x).Balanced ok after h) :
    (p >>= f).Balanced ok after h :=
  hp.track hf

/-- An action that takes nothing and releases nothing. -/
theorem Balanced.perform {a : A} {h : H} (hok : ok h a) (hafter : ∀ r, after a r h = h) :
    (perform a : Prog A R (R a)).Balanced ok after h :=
  ⟨hok, hafter⟩

theorem Balanced.ret (x : α) (h : H) : (Prog.ret x : Prog A R α).Balanced ok after h := rfl

end Prog

namespace Pool

variable {S : System} {L H : Type} {α : Type}

/-- The locks `L` of a thread pool. -/
structure Locking (S : System) (L H : Type) where
  /-- What a thread holds. -/
  hold : S.State → ℕ → H
  has : H → L → Prop
  /-- The lock that the action takes, and waits for where it is held. -/
  acquires : S.Act → Option L
  after : (a : S.Act) → S.Res a → H → H
  /-- What the other actions ask of what is held. -/
  pre : H → S.Act → Prop
  rank : L → ℕ
  recursive : L → Prop

namespace Locking

variable (K : Locking S L H)

/-- The locks held have lower ranks than the one taken, or it is recursive and taken again. -/
def Allows (h : H) (a : S.Act) : Prop :=
  K.pre h a ∧ ∀ l, K.acquires a = some l → ∀ l', K.has h l' →
    K.rank l' < K.rank l ∨ l' = l ∧ K.recursive l

/-- The program takes its locks in order, and holds `idle` at its end. -/
def Orderly (idle : H) (p : Program S Unit) (h : H) : Prop :=
  p.Track K.Allows K.after (fun _ h' => h' = idle) h

/-- The thread cannot go on before it has the lock. -/
def Waits (c : Config S) (t : ℕ) (l : L) : Prop :=
  ∃ a k, c.threads t = .act a k ∧ K.acquires a = some l ∧ ∀ ch, S.perform t a ch c.state = none

/-- One thread waits for a lock that the other holds. -/
def WaitsFor (c : Config S) (t u : ℕ) : Prop :=
  ∃ l, K.Waits c t l ∧ K.has (K.hold c.state u) l

/-- Actions take and release what they are said to, of the thread's own alone; a recursive lock
that is held can be taken again; and operations are orderly. -/
structure Sound (idle : H) : Prop where
  step : ∀ {t a ch s r s'}, K.Allows (K.hold s t) a → S.perform t a ch s = some (r, s') →
    K.hold s' t = K.after a r (K.hold s t) ∧ ∀ u, u ≠ t → K.hold s' u = K.hold s u
  call : ∀ {t op s s'}, S.call t op s = some s' →
    (∀ u, K.hold s' u = K.hold s u) ∧ K.Orderly idle (S.body op) idle
  env : ∀ {e s s'}, S.env e s = some s' → ∀ u, K.hold s' u = K.hold s u
  again : ∀ {t a l s}, K.acquires a = some l → K.recursive l → K.has (K.hold s t) l →
    ∃ ch, S.perform t a ch s ≠ none

/-- Every thread is orderly from what it holds. -/
def Ok (idle : H) (c : Config S) : Prop :=
  ∀ t, K.Orderly idle (c.threads t) (K.hold c.state t)

variable {K} {idle : H} {c c' : Config S} {t u : ℕ}

theorem Ok.next (hK : K.Sound idle) (h : K.Ok idle c) {e : Event S} (hnext : c.next e = some c') :
    K.Ok idle c' := by
  intro u
  rcases next_eq_some hnext with ⟨t, op, s, -, ⟨x, ht⟩, hs, rfl⟩ |
    ⟨t, ch, a, k, r, s, -, ht, hs, rfl⟩ | ⟨e, s, -, hs, rfl⟩
  · obtain ⟨hhold, hbody⟩ := hK.call hs
    have hidle : K.hold c.state t = idle := by
      have hret := h t
      rw [ht] at hret
      exact hret
    rcases eq_or_ne u t with rfl | hu
    · simp only [Function.update_self, hhold, hidle]
      exact hbody
    · simp only [Function.update_of_ne hu, hhold]
      exact h u
  · have hact := h t
    rw [ht] at hact
    obtain ⟨hown, hothers⟩ := hK.step hact.1 hs
    rcases eq_or_ne u t with rfl | hu
    · simp only [Function.update_self, hown]
      exact hact.2 r
    · simp only [Function.update_of_ne hu, hothers u hu]
      exact h u
  · simp only [hK.env hs]
    exact h u

/-- **Every run** of orderly operations keeps every thread orderly. -/
theorem run_ok (hK : K.Sound idle) (h : K.Ok idle c) {es : List (Event S)}
    (hrun : c.run es = some c') : K.Ok idle c' := by
  induction es generalizing c with
  | nil => exact Option.some.inj hrun ▸ h
  | cons e es ih =>
      obtain ⟨c₁, hnext, hrest⟩ := Option.bind_eq_some_iff.mp hrun
      exact ih (h.next hK hnext) hrest

/-- The locks a thread holds where it is about to take one. -/
theorem Ok.order (h : K.Ok idle c) {a : S.Act} {k : S.Res a → Program S Unit}
    (ht : c.threads t = .act a k) {l l' : L} (hl : K.acquires a = some l)
    (hl' : K.has (K.hold c.state t) l') : K.rank l' < K.rank l ∨ l' = l ∧ K.recursive l := by
  have hact := h t
  rw [ht] at hact
  exact hact.1.2 l hl l' hl'

/-- The locks a waiting thread holds have lower ranks than the one it waits for. -/
theorem Ok.rank_lt (hK : K.Sound idle) (h : K.Ok idle c) {l l' : L} (hwaits : K.Waits c t l)
    (hl' : K.has (K.hold c.state t) l') : K.rank l' < K.rank l := by
  obtain ⟨a, k, ht, hl, hblocked⟩ := hwaits
  rcases h.order ht hl hl' with hlt | ⟨rfl, hrecursive⟩
  · exact hlt
  · obtain ⟨ch, hch⟩ := hK.again hl hrecursive hl'
    exact absurd (hblocked ch) hch

theorem Waits.unique {l l' : L} (h : K.Waits c t l) (h' : K.Waits c t l') : l = l' := by
  obtain ⟨a, k, ht, hl, -⟩ := h
  obtain ⟨a', k', ht', hl', -⟩ := h'
  obtain ⟨rfl, -⟩ := Prog.act.inj (ht.symm.trans ht')
  exact Option.some.inj (hl.symm.trans hl')

/-- Along a chain of waiting threads the ranks rise. -/
theorem Ok.rank_rises (hK : K.Sound idle) (h : K.Ok idle c)
    (hchain : Relation.TransGen (K.WaitsFor c) t u) {l l' : L} (hl : K.Waits c t l)
    (hl' : K.Waits c u l') : K.rank l < K.rank l' := by
  induction hchain generalizing l' with
  | single hfor =>
      obtain ⟨l₁, hl₁, hhas⟩ := hfor
      obtain rfl := hl.unique hl₁
      exact h.rank_lt hK hl' hhas
  | tail _ hfor ih =>
      obtain ⟨l₁, hl₁, hhas⟩ := hfor
      exact Nat.lt_trans (ih hl₁) (h.rank_lt hK hl' hhas)

/-- **No deadlock**: no threads wait for locks in a circle. -/
theorem no_cycle (hK : K.Sound idle) (h : K.Ok idle c) (t : ℕ) :
    ¬ Relation.TransGen (K.WaitsFor c) t t := by
  intro hcycle
  obtain ⟨u, ⟨l, hl, -⟩, -⟩ := Relation.TransGen.head'_iff.mp hcycle
  exact Nat.lt_irrefl _ (h.rank_rises hK hcycle hl hl)

end Locking

end Pool

end Support
