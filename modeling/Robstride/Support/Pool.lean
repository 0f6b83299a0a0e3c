import Mathlib.Data.Nat.Notation
import Mathlib.Logic.Function.Basic
import Robstride.Support.Prog

/-!
# Support — Thread pools

Any number of threads over one shared state.  An idle thread may start an operation, a busy one
performs the next action of its program, and the environment acts in between; a run is a list
of such events.

A `Discipline` is a rely–guarantee argument: an invariant of the shared state, for each thread
the changes by others it can bear (`rely`), and for each action what holds whenever a thread is
about to perform it (`pre`), which is what the action's effect on the others may depend on.  `Safe`
is the judgement on programs, with its rules for sequences (`Triple`).  `Discipline.Kept` says that
every operation is safe; then every event keeps the invariant and meets its precondition
(`next_ok`), and further invariants are proved step by step along a run, with both at hand and under
a condition on the steps (`run_induction`).
-/

namespace Support

/-- What the threads run and what their actions do. -/
structure System where
  Act : Type
  Res : Act → Type
  State : Type
  /-- What the environment decides about an action. -/
  Choice : Type
  Op : Type
  Env : Type
  perform : ℕ → (a : Act) → Choice → State → Option (Res a × State)
  body : Op → Prog Act Res Unit
  call : ℕ → Op → State → Option State
  env : Env → State → Option State

namespace Pool

variable {S : System} {α β : Type}

/-- The programs of the system's threads. -/
abbrev Program (S : System) (α : Type) := Prog S.Act S.Res α

/-- The shared state, and what every thread has left to do. -/
structure Config (S : System) where
  state : S.State
  threads : ℕ → Program S Unit

/-- A thread calls an operation or takes a step, or the environment moves. -/
inductive Event (S : System) where
  | call (t : ℕ) (op : S.Op)
  | step (t : ℕ) (c : S.Choice)
  | env (e : S.Env)

/-- Every thread idle. -/
def start (s : S.State) : Config S where
  state := s
  threads _ := .ret ()

/-- The configuration after an event, `none` where the event cannot happen. -/
def Config.next (c : Config S) : Event S → Option (Config S)
  | .call t op =>
      match c.threads t with
      | .ret _ =>
          (S.call t op c.state).map fun s => ⟨s, Function.update c.threads t (S.body op)⟩
      | .act _ _ => none
  | .step t ch =>
      match c.threads t with
      | .ret _ => none
      | .act a k =>
          (S.perform t a ch c.state).map fun p => ⟨p.2, Function.update c.threads t (k p.1)⟩
  | .env e => (S.env e c.state).map fun s => ⟨s, c.threads⟩

/-- The configuration after a list of events, `none` where one of them cannot happen. -/
def Config.run (c : Config S) : List (Event S) → Option (Config S)
  | [] => some c
  | e :: es => (c.next e).bind fun c' => c'.run es

/-- The condition on the action that an event performs, if it performs one. -/
def Config.Allows (c : Config S) (cond : S.State → ℕ → S.Act → Prop) : Event S → Prop
  | .step t _ =>
      match c.threads t with
      | .ret _ => True
      | .act a _ => cond c.state t a
  | _ => True

instance (c : Config S) (cond : S.State → ℕ → S.Act → Prop) [∀ s t a, Decidable (cond s t a)]
    (e : Event S) : Decidable (c.Allows cond e) :=
  match e with
  | .step t ch =>
      match h : c.threads t with
      | .ret x => decidable_of_iff True (by simp [Config.Allows, h])
      | .act a k => decidable_of_iff (cond c.state t a) (by simp [Config.Allows, h])
  | .call _ _ => .isTrue trivial
  | .env _ => .isTrue trivial

/-- Every action of the run is performed in a state that meets the condition. -/
def Meets (cond : S.State → ℕ → S.Act → Prop) (c : Config S) : List (Event S) → Prop
  | [] => True
  | e :: es => c.Allows cond e ∧ ∀ c', c.next e = some c' → Meets cond c' es

instance decidableMeets (cond : S.State → ℕ → S.Act → Prop) [∀ s t a, Decidable (cond s t a)] :
    ∀ (c : Config S) (es : List (Event S)), Decidable (Meets cond c es)
  | _, [] => .isTrue trivial
  | c, e :: es =>
      match h : c.next e with
      | none => decidable_of_iff (c.Allows cond e) (by simp [Meets, h])
      | some c' =>
          have := decidableMeets cond c' es
          decidable_of_iff (c.Allows cond e ∧ Meets cond c' es) (by simp [Meets, h])

/-- What an event does, by cases. -/
theorem next_eq_some {c c' : Config S} {e : Event S} (h : c.next e = some c') :
    (∃ t op s, e = .call t op ∧ (∃ x, c.threads t = .ret x) ∧ S.call t op c.state = some s ∧
        c' = ⟨s, Function.update c.threads t (S.body op)⟩) ∨
      (∃ t ch a k r s, e = .step t ch ∧ c.threads t = .act a k ∧
        S.perform t a ch c.state = some (r, s) ∧
        c' = ⟨s, Function.update c.threads t (k r)⟩) ∨
      ∃ en s, e = .env en ∧ S.env en c.state = some s ∧ c' = ⟨s, c.threads⟩ := by
  cases e with
  | call t op =>
      cases ht : c.threads t with
      | ret x =>
          simp only [Config.next, ht, Option.map_eq_some_iff] at h
          obtain ⟨s, hs, rfl⟩ := h
          exact .inl ⟨t, op, s, rfl, ⟨x, ht⟩, hs, rfl⟩
      | act a k => simp [Config.next, ht] at h
  | step t ch =>
      cases ht : c.threads t with
      | ret x => simp [Config.next, ht] at h
      | act a k =>
          simp only [Config.next, ht, Option.map_eq_some_iff] at h
          obtain ⟨⟨r, s⟩, hs, rfl⟩ := h
          exact .inr (.inl ⟨t, ch, a, k, r, s, rfl, ht, hs, rfl⟩)
  | env en =>
      simp only [Config.next, Option.map_eq_some_iff] at h
      obtain ⟨s, hs, rfl⟩ := h
      exact .inr (.inr ⟨en, s, rfl, hs, rfl⟩)

/-! ### One thread alone -/

/-- The program goes from one state to another and returns, no other thread acting. -/
inductive Alone (t : ℕ) : Program S α → S.State → α → S.State → Prop where
  | ret (x : α) (s : S.State) : Alone t (.ret x) s x s
  | act (ch : S.Choice) {a : S.Act} {k : S.Res a → Program S α} {r : S.Res a} {x : α}
      {s s' s'' : S.State} (h : S.perform t a ch s = some (r, s')) (hk : Alone t (k r) s' x s'') :
      Alone t (.act a k) s x s''

theorem Alone.ite_pos {t : ℕ} {b : Prop} [Decidable b] {p q : Program S α} {x : α}
    {s s' : S.State} (hb : b) (h : Alone t p s x s') : Alone t (if b then p else q) s x s' := by
  rwa [if_pos hb]

theorem Alone.ite_neg {t : ℕ} {b : Prop} [Decidable b] {p q : Program S α} {x : α}
    {s s' : S.State} (hb : ¬ b) (h : Alone t q s x s') : Alone t (if b then p else q) s x s' := by
  rwa [if_neg hb]

/-- It is a run of the pool. -/
theorem Alone.run {t : ℕ} {p : Program S Unit} {u : Unit} {s s' : S.State} (h : Alone t p s u s')
    (threads : ℕ → Program S Unit) (ht : threads t = p) :
    ∃ chs : List S.Choice, Config.run ⟨s, threads⟩ (chs.map (Event.step t)) =
      some ⟨s', Function.update threads t (.ret u)⟩ := by
  induction h generalizing threads with
  | ret x s => exact ⟨[], by rw [← ht, Function.update_eq_self]; rfl⟩
  | @act ch a k r x s s' s'' h hk ih =>
      obtain ⟨chs, hrun⟩ := ih (Function.update threads t (k r)) (Function.update_self ..)
      rw [Function.update_idem] at hrun
      have hnext : Config.next ⟨s, threads⟩ (.step t ch) =
          some ⟨s', Function.update threads t (k r)⟩ := by
        simp only [Config.next, ht, h, Option.map_some]
      refine ⟨ch :: chs, ?_⟩
      rw [List.map_cons, Config.run, hnext]
      exact hrun

/-! ### Rely and guarantee -/

/-- What a thread relies on, and what holds before each action. -/
structure Discipline (S : System) where
  inv : S.State → Prop
  /-- The changes of the other threads and of the environment that thread `t` can bear. -/
  rely : ℕ → S.State → S.State → Prop
  /-- What holds whenever thread `t` is about to perform the action. -/
  pre : S.State → ℕ → S.Act → Prop
  idle : ℕ → S.State → Prop
  rely_refl : ∀ t s, rely t s s
  rely_trans : ∀ {t s s' s''}, rely t s s' → rely t s' s'' → rely t s s''
  idle_stable : ∀ {t s s'}, idle t s → rely t s s' → idle t s'

namespace Discipline

variable {D : Discipline S} {t : ℕ}

/-- Thread `t` may run the program from `s`, among threads it can bear: each action it comes to
meets its precondition, and when it returns, `Q` holds. -/
def Safe (D : Discipline S) (t : ℕ) : Program S α → (α → S.State → Prop) → S.State → Prop
  | .ret x, Q, s => Q x s
  | .act a k, Q, s =>
      ∀ s', D.inv s' → D.rely t s s' →
        D.pre s' t a ∧
          ∀ ch r s'', S.perform t a ch s' = some (r, s'') → D.inv s'' → Safe D t (k r) Q s''

theorem Safe.bind {p : Program S α} {f : α → Program S β} {Q : β → S.State → Prop} {s : S.State}
    (h : D.Safe t p (fun x s => D.Safe t (f x) Q s) s) : D.Safe t (p >>= f) Q s := by
  induction p generalizing s with
  | ret x => exact h
  | act a k ih =>
      intro s' hinv hrely
      obtain ⟨hpre, hact⟩ := h s' hinv hrely
      exact ⟨hpre, fun ch r s'' hs'' hinv' => ih r (hact ch r s'' hs'' hinv')⟩

/-- A weaker postcondition. -/
theorem Safe.mono {p : Program S α} {Q Q' : α → S.State → Prop} {s : S.State}
    (h : D.Safe t p Q s) (hQ : ∀ x s, Q x s → Q' x s) : D.Safe t p Q' s := by
  induction p generalizing s with
  | ret x => exact hQ x s h
  | act a k ih =>
      intro s' hinv hrely
      obtain ⟨hpre, hact⟩ := h s' hinv hrely
      exact ⟨hpre, fun ch r s'' hs'' hinv' => ih r (hact ch r s'' hs'' hinv')⟩

/-- A thread bears what it relies on, wherever it is in its program. -/
theorem Safe.rely {p : Program S Unit} {s s' : S.State}
    (h : D.Safe t p (fun _ => D.idle t) s) (hrely : D.rely t s s') :
    D.Safe t p (fun _ => D.idle t) s' := by
  cases p with
  | ret x => exact D.idle_stable h hrely
  | act a k => exact fun s'' hinv hrely' => h s'' hinv (D.rely_trans hrely hrely')

/-! ### Triples -/

/-- From a state with `P`, the program is safe and ends with `Q`. -/
def Triple (D : Discipline S) (t : ℕ) (P : S.State → Prop) (p : Program S α)
    (Q : α → S.State → Prop) : Prop :=
  ∀ s, P s → D.Safe t p Q s

/-- The other threads cannot make `P` false. -/
def Stable (D : Discipline S) (t : ℕ) (P : S.State → Prop) : Prop :=
  ∀ s s', P s → D.rely t s s' → P s'

theorem Stable.and {P P' : S.State → Prop} (h : D.Stable t P) (h' : D.Stable t P') :
    D.Stable t fun s => P s ∧ P' s :=
  fun s s' hp hr => ⟨h s s' hp.1 hr, h' s s' hp.2 hr⟩

theorem Triple.ret {P : S.State → Prop} {x : α} {Q : α → S.State → Prop} (h : ∀ s, P s → Q x s) :
    D.Triple t P (pure x) Q := h

theorem Triple.bind {P : S.State → Prop} {p : Program S α} {Q : α → S.State → Prop}
    {f : α → Program S β} {Q' : β → S.State → Prop} (hp : D.Triple t P p Q)
    (hf : ∀ x, D.Triple t (Q x) (f x) Q') : D.Triple t P (p >>= f) Q' :=
  fun s hs => (Safe.mono (hp s hs) fun x s' hs' => hf x s' hs').bind

theorem Triple.weaken {P P' : S.State → Prop} {p : Program S α} {Q Q' : α → S.State → Prop}
    (h : D.Triple t P p Q) (hP : ∀ s, P' s → P s) (hQ : ∀ x s, Q x s → Q' x s) :
    D.Triple t P' p Q' :=
  fun s hs => Safe.mono (h s (hP s hs)) hQ

/-- One action, from a stable precondition. -/
theorem Triple.perform {a : S.Act} {P : S.State → Prop} {Q : S.Res a → S.State → Prop}
    (hstable : D.Stable t P) (hpre : ∀ s, D.inv s → P s → D.pre s t a)
    (hpost : ∀ s ch r s', D.inv s → P s → S.perform t a ch s = some (r, s') → D.inv s' → Q r s') :
    D.Triple t P (Prog.perform a) Q := by
  intro s hs s' hinv hrely
  have hs' := hstable s s' hs hrely
  exact ⟨hpre s' hinv hs', fun ch r s'' hs'' hinv' => hpost s' ch r s'' hinv hs' hs'' hinv'⟩

/-- What no action of the thread changes may be carried along. -/
theorem Triple.frame {P R : S.State → Prop} {p : Program S α} {Q : α → S.State → Prop}
    (h : D.Triple t P p Q) (hstable : D.Stable t R)
    (hkeep : ∀ {a ch s r s'}, S.perform t a ch s = some (r, s') → R s → R s') :
    D.Triple t (fun s => P s ∧ R s) p fun x s => Q x s ∧ R s := by
  have hsafe : ∀ (p : Program S α) s, D.Safe t p Q s → R s →
      D.Safe t p (fun x s => Q x s ∧ R s) s := fun p => by
    induction p with
    | ret x => exact fun s hs hR => ⟨hs, hR⟩
    | act a k ih =>
        intro s hs hR s' hinv hrely
        obtain ⟨hpre, hact⟩ := hs s' hinv hrely
        refine ⟨hpre, fun ch r s'' hs'' hinv' => ?_⟩
        exact ih r s'' (hact ch r s'' hs'' hinv') (hkeep hs'' (hstable s s' hR hrely))
  exact fun s hs => hsafe p s (h s hs.1) hs.2

/-! ### Runs -/

/-- An action that meets its precondition keeps the invariant and is borne by the other threads,
and so are the environment's changes; and every operation is safe. -/
structure Kept (D : Discipline S) : Prop where
  step : ∀ {t a ch s r s'}, D.inv s → D.pre s t a → S.perform t a ch s = some (r, s') →
    D.inv s' ∧ ∀ u, u ≠ t → D.rely u s s'
  call : ∀ {t op s s'}, D.inv s → D.idle t s → S.call t op s = some s' →
    D.inv s' ∧ (∀ u, u ≠ t → D.rely u s s') ∧ D.Safe t (S.body op) (fun _ => D.idle t) s'
  env : ∀ {e s s'}, D.inv s → S.env e s = some s' → D.inv s' ∧ ∀ t, D.rely t s s'

/-- The invariant holds and every thread is safe. -/
structure Ok (D : Discipline S) (c : Config S) : Prop where
  inv : D.inv c.state
  safe : ∀ t, D.Safe t (c.threads t) (fun _ => D.idle t) c.state

theorem start_ok {s : S.State} (hinv : D.inv s) (hidle : ∀ t, D.idle t s) : D.Ok (start s) :=
  ⟨hinv, hidle⟩

/-- One thread moves on, the others bear it. -/
theorem Ok.update {c : Config S} {s : S.State} {p : Program S Unit} (h : D.Ok c)
    (hinv : D.inv s) (hguar : ∀ u, u ≠ t → D.rely u c.state s)
    (hp : D.Safe t p (fun _ => D.idle t) s) : D.Ok ⟨s, Function.update c.threads t p⟩ := by
  refine ⟨hinv, fun u => ?_⟩
  rcases eq_or_ne u t with rfl | hu
  · simpa using hp
  · simpa [hu] using (h.safe u).rely (hguar u hu)

theorem Ok.pre {c : Config S} {a : S.Act} {k : S.Res a → Program S Unit} (h : D.Ok c)
    (ht : c.threads t = .act a k) : D.pre c.state t a := by
  have hsafe := h.safe t
  rw [ht] at hsafe
  exact (hsafe _ h.inv (D.rely_refl _ _)).1

theorem next_ok (hD : D.Kept) {c c' : Config S} {e : Event S} (h : D.Ok c)
    (hnext : c.next e = some c') : D.Ok c' := by
  rcases next_eq_some hnext with ⟨t, op, s, -, ⟨x, ht⟩, hs, rfl⟩ |
    ⟨t, ch, a, k, r, s, -, ht, hs, rfl⟩ | ⟨en, s, -, hs, rfl⟩
  · have hidle : D.idle t c.state := by
      have hsafe := h.safe t
      rw [ht] at hsafe
      exact hsafe
    obtain ⟨hinv, hguar, hbody⟩ := hD.call h.inv hidle hs
    exact h.update hinv hguar hbody
  · have hsafe := h.safe t
    rw [ht] at hsafe
    obtain ⟨hpre, hrest⟩ := hsafe _ h.inv (D.rely_refl _ _)
    obtain ⟨hinv, hguar⟩ := hD.step h.inv hpre hs
    exact h.update hinv hguar (hrest ch r s hs hinv)
  · obtain ⟨hinv, hrely⟩ := hD.env h.inv hs
    exact ⟨hinv, fun t => (h.safe t).rely (hrely t)⟩

/-- **Induction over a run** whose steps meet a condition: each step may use the invariant
before and after it, and the precondition of its action. -/
theorem run_induction (hD : D.Kept) {C : S.State → ℕ → S.Act → Prop} {P : S.State → Prop}
    (hstep : ∀ {s t a ch r s'}, D.inv s → D.pre s t a → C s t a → P s →
      S.perform t a ch s = some (r, s') → D.inv s' → P s')
    (hcall : ∀ {s t op s'}, D.inv s → P s → S.call t op s = some s' → P s')
    (henv : ∀ {s e s'}, D.inv s → P s → S.env e s = some s' → P s')
    {c c' : Config S} {es : List (Event S)} (hok : D.Ok c) (hP : P c.state)
    (hmeets : Meets C c es) (hrun : c.run es = some c') : P c'.state := by
  induction es generalizing c with
  | nil => exact Option.some.inj hrun ▸ hP
  | cons e es ih =>
      obtain ⟨c₁, hnext, hrest⟩ := Option.bind_eq_some_iff.mp hrun
      have hok' := next_ok hD hok hnext
      refine ih hok' ?_ (hmeets.2 c₁ hnext) hrest
      rcases next_eq_some hnext with ⟨t, op, s, -, -, hs, rfl⟩ |
        ⟨t, ch, a, k, r, s, rfl, ht, hs, rfl⟩ | ⟨en, s, -, hs, rfl⟩
      · exact hcall hok.inv hP hs
      · have hcond : C c.state t a := by
          have hallows := hmeets.1
          rwa [Config.Allows, ht] at hallows
        exact hstep hok.inv (hok.pre ht) hcond hP hs hok'.inv
      · exact henv hok.inv hP hs

end Discipline

end Pool

end Support
