import Robstride.Support.Phases

/-!
# Support — Critical sections

Data that the threads of a pool change under a lock, a section at a time.  One action of a section
is its event, and a phase says what its thread still has to do to the data before it gives the lock
up (`rest`).  Then a run is explained by its events alone, in their order: while no thread is in a
section, the data is what the events make of it one after another, and otherwise what the section
under way will leave is (`Sections.explained`).
-/

namespace Support.Pool

variable {S : System} {F : Phases S} {G E : Type}

/-- Data under a lock: what the threads and the environment make of it, one event for each
section. -/
structure Sections (F : Phases S) (G E : Type) where
  view : S.State → G
  /-- The thread is in a section. -/
  holds : F.Phase → Prop
  /-- What the thread still has to do to the data. -/
  rest : F.Phase → G → G
  event : Label S → Option E
  apply : G → E → G

namespace Sections

variable (K : Sections F G E)

/-- The events of a log, in their order. -/
def history (ls : List (Label S)) : List E := ls.filterMap K.event

/-- What the events make of the data. -/
def sequential (g : G) (ls : List (Label S)) : G := (K.history ls).foldl K.apply g

/-- What a label does to the data, a whole section at its event. -/
def effect (l : Label S) (g : G) : G :=
  match K.event l with
  | none => g
  | some e => K.apply g e

theorem sequential_snoc (g : G) (ls : List (Label S)) (l : Label S) :
    K.sequential g (ls ++ [l]) = K.effect l (K.sequential g ls) := by
  simp only [sequential, history, effect, List.filterMap_append, List.foldl_append]
  cases h : K.event l with
  | none => simp [h]
  | some e => simp [h]

/-- A step of a thread in a section, or that begins one, brings what is left to do in line with the
event; other steps leave the data alone, and what the environment does is an event of its own, in
whatever section it falls.  `Link` keeps the phases to one section at a time. -/
structure Sound (Link : S.State → (ℕ → F.Phase) → Prop) : Prop where
  kept : F.Kept
  alone : ∀ {s φ t u}, Link s φ → K.holds (φ t) → K.holds (φ u) → u = t
  link_act : ∀ {s φ t a ch r s'}, Link s φ → F.ok (φ t) a → S.perform t a ch s = some (r, s') →
    Link s' (Function.update φ t (F.next (φ t) a r))
  link_call : ∀ {s φ t op s'}, Link s φ → S.call t op s = some s' → Link s' φ
  link_env : ∀ {s φ e s'}, Link s φ → S.env e s = some s' → Link s' φ
  rest_free : ∀ {s φ t} (g : G), Link s φ → ¬ K.holds (φ t) → K.rest (φ t) g = g
  inside : ∀ {s φ t a ch r s'}, Link s φ → F.ok (φ t) a → S.perform t a ch s = some (r, s') →
    K.holds (φ t) ∨ K.holds (F.next (φ t) a r) →
      K.rest (F.next (φ t) a r) (K.view s') = K.effect (.act t a r) (K.rest (φ t) (K.view s))
  outside : ∀ {s φ t a ch r s'}, Link s φ → F.ok (φ t) a → S.perform t a ch s = some (r, s') →
    ¬ K.holds (φ t) → ¬ K.holds (F.next (φ t) a r) →
      K.view s' = K.view s ∧ K.event (.act t a r) = none
  call : ∀ {t op s s'}, S.call t op s = some s' → K.view s' = K.view s ∧ K.event (.call t op) = none
  env : ∀ {e s s'} (φ : F.Phase), S.env e s = some s' →
    K.rest φ (K.view s') = K.effect (.env e) (K.rest φ (K.view s))

/-- What the section under way will leave is what the events say. -/
structure Explained (g : G) (ls : List (Label S)) (s : S.State) (φ : ℕ → F.Phase) : Prop where
  busy : ∀ t, K.holds (φ t) → K.rest (φ t) (K.view s) = K.sequential g ls
  free : (∀ t, ¬ K.holds (φ t)) → K.view s = K.sequential g ls

variable {K} {Link : S.State → (ℕ → F.Phase) → Prop} {g : G} {ls : List (Label S)} {s s' : S.State}
  {φ : ℕ → F.Phase}

/-- Where thread `t` is in a section or no thread is, its phase says what is left to do. -/
theorem Explained.rest (hK : K.Sound Link) (h : K.Explained g ls s φ) (hlink : Link s φ) {t : ℕ}
    (ht : ∀ u, K.holds (φ u) → u = t) : K.rest (φ t) (K.view s) = K.sequential g ls := by
  by_cases hholds : K.holds (φ t)
  · exact h.busy t hholds
  · rw [hK.rest_free _ hlink hholds]
    refine h.free fun u hu => hholds ?_
    rwa [ht u hu] at hu

theorem Explained.act (hK : K.Sound Link) (h : K.Explained g ls s φ) (hlink : Link s φ) {t : ℕ}
    {a : S.Act} {ch : S.Choice} {r : S.Res a} (hok : F.ok (φ t) a)
    (hs : S.perform t a ch s = some (r, s')) :
    K.Explained g (ls ++ [.act t a r]) s' (Function.update φ t (F.next (φ t) a r)) := by
  have hlink' := hK.link_act hlink hok hs
  by_cases hin : K.holds (φ t) ∨ K.holds (F.next (φ t) a r)
  · -- Nobody else is in a section, before the step or after it.
    have hothers : ∀ u, K.holds (φ u) → u = t := by
      intro u hu
      rcases hin with hin | hin
      · exact hK.alone hlink hin hu
      · by_contra hne
        refine hne (hK.alone hlink' ?_ ?_)
        · rwa [Function.update_self]
        · rwa [Function.update_of_ne hne]
    have hrest : K.rest (F.next (φ t) a r) (K.view s') =
        K.sequential g (ls ++ [.act t a r]) := by
      rw [hK.inside hlink hok hs hin, h.rest hK hlink hothers, sequential_snoc]
    constructor
    · intro u hu
      by_cases hut : u = t
      · subst hut
        rwa [Function.update_self]
      · rw [Function.update_of_ne hut] at hu
        exact absurd (hothers u hu) hut
    · intro hnone
      have hfree := hK.rest_free (K.view s') hlink' (hnone t)
      rw [Function.update_self] at hfree
      rwa [hfree] at hrest
  · obtain ⟨hbefore, hafter⟩ := not_or.mp hin
    obtain ⟨hview, hevent⟩ := hK.outside hlink hok hs hbefore hafter
    have hsame : K.sequential g (ls ++ [.act t a r]) = K.sequential g ls := by
      rw [sequential_snoc, effect, hevent]
    constructor
    · intro u hu
      by_cases hut : u = t
      · subst hut
        rw [Function.update_self] at hu
        exact absurd hu hafter
      · rw [Function.update_of_ne hut] at hu ⊢
        rw [hview, hsame]
        exact h.busy u hu
    · intro hnone
      rw [hview, hsame]
      refine h.free fun u hu => ?_
      by_cases hut : u = t
      · subst hut
        exact hbefore hu
      · have hnot := hnone u
        rw [Function.update_of_ne hut] at hnot
        exact hnot hu

theorem Explained.call (hK : K.Sound Link) (h : K.Explained g ls s φ) {t : ℕ} {op : S.Op}
    (hs : S.call t op s = some s') : K.Explained g (ls ++ [.call t op]) s' φ := by
  obtain ⟨hview, hevent⟩ := hK.call hs
  have hsame : K.sequential g (ls ++ [.call t op]) = K.sequential g ls := by
    rw [sequential_snoc, effect, hevent]
  constructor
  · intro u hu
    rw [hview, hsame]
    exact h.busy u hu
  · intro hnone
    rw [hview, hsame]
    exact h.free hnone

theorem Explained.env (hK : K.Sound Link) (h : K.Explained g ls s φ) (hlink : Link s φ) {e : S.Env}
    (hs : S.env e s = some s') : K.Explained g (ls ++ [.env e]) s' φ := by
  constructor
  · intro u hu
    rw [hK.env (φ u) hs, h.busy u hu, sequential_snoc]
  · intro hnone
    have hrest := hK.env (φ 0) hs
    rw [hK.rest_free _ hlink (hnone 0), hK.rest_free _ hlink (hnone 0), h.free hnone] at hrest
    rw [hrest, sequential_snoc]

/-- **Every run is explained** by its events, in their order. -/
theorem explained (hK : K.Sound Link) (hlink : Link s fun _ => F.idle) (hidle : ¬ K.holds F.idle)
    {C : S.State → Label S → Prop} {c : Config S} (hpath : Path C (start s) ls c) :
    ∃ φ, F.Follows c φ ∧ Link c.state φ ∧ K.Explained (K.view s) ls c.state φ := by
  induction hpath with
  | nil => exact ⟨_, Phases.start_follows s, hlink, fun t ht => absurd ht hidle, fun _ => rfl⟩
  | @snoc c₁ c₂ ls l hpath hstep _ ih =>
      obtain ⟨φ, hfollows, hlink₁, hexplained⟩ := ih
      refine ⟨F.move φ l, hfollows.step hK.kept hstep, ?_⟩
      cases hstep with
      | call hret hs => exact ⟨hK.link_call hlink₁ hs, hexplained.call hK hs⟩
      | @act t a k r s' ch ht hs =>
          have hok := hfollows t
          rw [ht] at hok
          exact ⟨hK.link_act hlink₁ hok.1 hs, hexplained.act hK hlink₁ hok.1 hs⟩
      | env hs => exact ⟨hK.link_env hlink₁ hs, hexplained.env hK hlink₁ hs⟩

/-- A thread about to act outside of what is left to do reads what the events say. -/
theorem view_eq (hK : K.Sound Link) (hlink : Link s φ) (h : K.Explained g ls s φ) {t : ℕ}
    (hholds : K.holds (φ t)) (hrest : K.rest (φ t) (K.view s) = K.view s) :
    K.view s = K.sequential g ls := by
  rw [← hrest]
  exact h.rest hK hlink fun u hu => hK.alone hlink hholds hu

end Sections

end Support.Pool
