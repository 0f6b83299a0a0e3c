import Mathlib.Tactic.TypeStar

/-!
# Support — Programs over atomic actions

A program performs atomic actions, each of which answers with a result of its own type, and
returns a value.  It says nothing about what an action does: `Support/Pool.lean` runs programs
against a shared state, and `After` lets the results be anything.
-/

namespace Support

/-- Programs over the actions `A`; action `a` answers in `R a`. -/
inductive Prog (A : Type) (R : A → Type) (α : Type) : Type where
  | ret (x : α)
  | act (a : A) (k : R a → Prog A R α)

namespace Prog

variable {A : Type} {R : A → Type} {α β γ : Type}

/-- The second program goes on where the first returns. -/
def bind : Prog A R α → (α → Prog A R β) → Prog A R β
  | ret x, f => f x
  | act a k, f => act a fun r => (k r).bind f

instance : Monad (Prog A R) where
  pure := ret
  bind := bind

/-- The program that performs one action and returns its answer. -/
def perform (a : A) : Prog A R (R a) := act a ret

@[simp] theorem pure_eq (x : α) : (Pure.pure x : Prog A R α) = ret x := rfl

@[simp] theorem ret_bind (x : α) (f : α → Prog A R β) : (ret x : Prog A R α) >>= f = f x := rfl

@[simp] theorem act_bind (a : A) (k : R a → Prog A R α) (f : α → Prog A R β) :
    (act a k : Prog A R α) >>= f = act a fun r => k r >>= f := rfl

@[simp] theorem perform_bind (a : A) (f : R a → Prog A R β) :
    (perform a : Prog A R (R a)) >>= f = act a f := rfl

theorem bind_assoc (p : Prog A R α) (f : α → Prog A R β) (g : β → Prog A R γ) :
    p >>= f >>= g = p >>= fun x => f x >>= g := by
  induction p with
  | ret x => rfl
  | act a k ih =>
      rw [act_bind, act_bind, act_bind]
      exact congrArg (act a) (funext fun r => ih r)

/-- The program has returned. -/
def isRet : Prog A R α → Bool
  | ret _ => true
  | act _ _ => false

theorem isRet_iff {p : Prog A R α} : p.isRet = true ↔ ∃ x, p = ret x := by
  cases p with
  | ret x => exact iff_of_true rfl ⟨x, rfl⟩
  | act a k => exact iff_of_false Bool.false_ne_true fun ⟨_, h⟩ => nomatch h

/-! ### Traces -/

/-- The actions performed, each with its answer. -/
abbrev Trace (A : Type) (R : A → Type) := List (Σ a : A, R a)

/-- Performing the trace leaves the program `q`. -/
inductive After : Prog A R α → Trace A R → Prog A R α → Prop where
  | nil (p : Prog A R α) : After p [] p
  | cons {a : A} {k : R a → Prog A R α} {r : R a} {tr : Trace A R} {q : Prog A R α}
      (h : After (k r) tr q) : After (act a k) (⟨a, r⟩ :: tr) q

theorem After.append {p q q' : Prog A R α} {tr₁ tr₂ : Trace A R} (h₁ : After p tr₁ q)
    (h₂ : After q tr₂ q') : After p (tr₁ ++ tr₂) q' := by
  induction h₁ with
  | nil => exact h₂
  | cons _ ih => exact .cons (ih h₂)

/-- A program of two parts: its traces run through the first part into the second. -/
theorem after_bind_inv {p : Prog A R α} {f : α → Prog A R β} {tr : Trace A R} {q : Prog A R β}
    (h : After (p >>= f) tr q) :
    (∃ p', After p tr p' ∧ q = p' >>= f) ∨
      ∃ tr₁ x tr₂, tr = tr₁ ++ tr₂ ∧ After p tr₁ (ret x) ∧ After (f x) tr₂ q := by
  induction p generalizing tr with
  | ret x => exact .inr ⟨[], x, tr, rfl, .nil _, h⟩
  | act a k ih =>
      rw [act_bind] at h
      cases h with
      | nil => exact .inl ⟨act a k, .nil _, rfl⟩
      | @cons _ _ r tr _ h =>
          rcases ih r h with ⟨p', hp', rfl⟩ | ⟨tr₁, x, tr₂, rfl, hx, hq⟩
          · exact .inl ⟨p', .cons hp', rfl⟩
          · exact .inr ⟨⟨a, r⟩ :: tr₁, x, tr₂, rfl, .cons hx, hq⟩

theorem After.bind {p : Prog A R α} {f : α → Prog A R β} {tr₁ tr₂ : Trace A R} {x : α}
    {q : Prog A R β} (h₁ : After p tr₁ (ret x)) (h₂ : After (f x) tr₂ q) :
    After (p >>= f) (tr₁ ++ tr₂) q := by
  generalize hp : (ret x : Prog A R α) = p' at h₁
  induction h₁ with
  | nil => exact hp ▸ h₂
  | cons _ ih => exact .cons (ih hp)

/-- A program of two parts returns what the second does from what the first returned. -/
theorem after_bind_ret {p : Prog A R α} {f : α → Prog A R β} {tr : Trace A R} {y : β}
    (h : After (p >>= f) tr (ret y)) :
    ∃ tr₁ x tr₂, tr = tr₁ ++ tr₂ ∧ After p tr₁ (ret x) ∧ After (f x) tr₂ (ret y) := by
  rcases after_bind_inv h with ⟨p', hp', hret⟩ | h
  · cases p' with
    | ret x => exact ⟨tr, x, [], (List.append_nil tr).symm, hp', hret ▸ .nil _⟩
    | act a k => cases hret
  · exact h

/-- A program of two parts comes to an action in the first or in the second. -/
theorem after_bind_act {p : Prog A R α} {f : α → Prog A R β} {tr : Trace A R} {a : A}
    {k : R a → Prog A R β} (h : After (p >>= f) tr (act a k)) :
    (∃ k', After p tr (act a k')) ∨
      ∃ tr₁ x tr₂, tr = tr₁ ++ tr₂ ∧ After p tr₁ (ret x) ∧ After (f x) tr₂ (act a k) := by
  rcases after_bind_inv h with ⟨p', hp', hact⟩ | h
  · cases p' with
    | ret x => exact .inr ⟨tr, x, [], (List.append_nil tr).symm, hp', hact ▸ .nil _⟩
    | act a' k' =>
        obtain ⟨rfl, -⟩ := act.inj hact
        exact .inl ⟨k', hp'⟩
  · exact .inr h

theorem after_ret {x y : α} {tr : Trace A R} (h : After (ret x) tr (ret y)) : tr = [] ∧ x = y := by
  cases h
  exact ⟨rfl, rfl⟩

theorem after_perform {a : A} {r : R a} {tr : Trace A R} (h : After (perform a) tr (ret r)) :
    tr = [⟨a, r⟩] := by
  cases h with
  | cons h =>
      obtain ⟨rfl, rfl⟩ := after_ret h
      rfl

/-! ### Every action -/

/-- Every action the program may come to, whatever the answers, is `ok`. -/
def All (ok : A → Prop) : Prog A R α → Prop
  | ret _ => True
  | act a k => ok a ∧ ∀ r, (k r).All ok

theorem All.bind {ok : A → Prop} {p : Prog A R α} {f : α → Prog A R β} (hp : p.All ok)
    (hf : ∀ x, (f x).All ok) : (p >>= f).All ok := by
  induction p with
  | ret x => exact hf x
  | act a k ih => exact ⟨hp.1, fun r => ih r (hp.2 r)⟩

theorem All.perform {ok : A → Prop} {a : A} (h : ok a) : (perform a : Prog A R (R a)).All ok :=
  ⟨h, fun _ => trivial⟩

theorem All.after {ok : A → Prop} {p q : Prog A R α} {tr : Trace A R} (h : p.All ok)
    (hafter : After p tr q) : q.All ok := by
  induction hafter with
  | nil => exact h
  | cons _ ih => exact ih (h.2 _)

/-- Every action performed. -/
theorem All.of_mem {ok : A → Prop} {p q : Prog A R α} {tr : Trace A R} (h : p.All ok)
    (hafter : After p tr q) : ∀ x ∈ tr, ok x.1 := by
  induction hafter with
  | nil => exact fun x hx => absurd hx List.not_mem_nil
  | cons _ ih => exact List.forall_mem_cons.mpr ⟨h.1, ih (h.2 _)⟩

theorem All.mono {ok ok' : A → Prop} {p : Prog A R α} (h : p.All ok) (hok : ∀ a, ok a → ok' a) :
    p.All ok' := by
  induction p with
  | ret x => trivial
  | act a k ih => exact ⟨hok a h.1, fun r => ih r (h.2 r)⟩

theorem All.and {ok ok' : A → Prop} {p : Prog A R α} (h : p.All ok) (h' : p.All ok') :
    p.All fun a => ok a ∧ ok' a := by
  induction p with
  | ret x => trivial
  | act a k ih => exact ⟨⟨h.1, h'.1⟩, fun r => ih r (h.2 r) (h'.2 r)⟩

/-- An action the program has come to. -/
theorem All.at_act {ok : A → Prop} {p : Prog A R α} {tr : Trace A R} {a : A} {k : R a → Prog A R α}
    (h : p.All ok) (hafter : After p tr (act a k)) : ok a := (h.after hafter).1

/-- As long as the answers meet `ans`, every action the program comes to is `ok`, and what it
returns meets `Q`. -/
def Under (ans : (a : A) → R a → Prop) (ok : A → Prop) (Q : α → Prop) : Prog A R α → Prop
  | ret x => Q x
  | act a k => ok a ∧ ∀ r, ans a r → (k r).Under ans ok Q

section Under

variable {ans : (a : A) → R a → Prop} {ok : A → Prop}

theorem Under.bind {Q : α → Prop} {Q' : β → Prop} {p : Prog A R α} {f : α → Prog A R β}
    (hp : p.Under ans ok Q) (hf : ∀ x, Q x → (f x).Under ans ok Q') :
    (p >>= f).Under ans ok Q' := by
  induction p with
  | ret x => exact hf x hp
  | act a k ih => exact ⟨hp.1, fun r hr => ih r (hp.2 r hr)⟩

/-- An action answers as it may. -/
theorem Under.perform {a : A} (hok : ok a) : (perform a : Prog A R (R a)).Under ans ok (ans a) :=
  ⟨hok, fun _ hr => hr⟩

theorem Under.after {Q : α → Prop} {p q : Prog A R α} {tr : Trace A R} (h : p.Under ans ok Q)
    (hafter : After p tr q) (hans : ∀ x ∈ tr, ans x.1 x.2) :
    (∀ x ∈ tr, ok x.1) ∧ q.Under ans ok Q := by
  induction hafter with
  | nil => exact ⟨fun x hx => absurd hx List.not_mem_nil, h⟩
  | cons _ ih =>
      obtain ⟨hhead, htail⟩ := List.forall_mem_cons.mp hans
      obtain ⟨hok, hq⟩ := ih (h.2 _ hhead) htail
      exact ⟨List.forall_mem_cons.mpr ⟨h.1, hok⟩, hq⟩

theorem All.under {p : Prog A R α} (h : p.All ok) : p.Under ans ok fun _ => True := by
  induction p with
  | ret x => trivial
  | act a k ih => exact ⟨h.1, fun r _ => ih r (h.2 r)⟩

/-- Two judgements at once. -/
theorem Under.and_all {ok' : A → Prop} {Q : α → Prop} {p : Prog A R α} (h : p.Under ans ok Q)
    (hall : p.All ok') : p.Under ans (fun a => ok a ∧ ok' a) Q := by
  induction p with
  | ret x => exact h
  | act a k ih => exact ⟨⟨h.1, hall.1⟩, fun r hr => ih r (h.2 r hr) (hall.2 r)⟩

end Under

end Prog

end Support
