import Mathlib.Data.List.Basic
import Mathlib.Data.List.Induction
import Robstride.Support.Pool

/-!
# Support — Logs

Runs of a thread pool with a record of what happened: one label for each call, for each action
with its answer, and for each move of the environment.  `Path C c log c'` is a run from `c` to
`c'` whose every step meets `C`, a condition on the state before it and on its label.

A log can be cut anywhere (`Path.split`).  What a thread performed since its last call is a trace
of the operation it called (`Path.program`), so an inversion of the program finds its actions in
the log.  Between two of them the other threads change only what the thread can bear
(`Path.keeps`).
-/

namespace Support.Pool

open Prog (After Trace)

variable {S : System}

/-- What happened in a step. -/
inductive Label (S : System) where
  | call (t : ℕ) (op : S.Op)
  | act (t : ℕ) (a : S.Act) (r : S.Res a)
  | env (e : S.Env)

/-- The thread that moves. -/
def Label.thread : Label S → Option ℕ
  | .call t _ | .act t _ _ => some t
  | .env _ => none

/-- A step with what happened. -/
inductive Step : Config S → Label S → Config S → Prop where
  | call {c : Config S} {t : ℕ} {op : S.Op} {s : S.State} {u : Unit} (hidle : c.threads t = .ret u)
      (h : S.call t op c.state = some s) :
      Step c (.call t op) ⟨s, Function.update c.threads t (S.body op)⟩
  | act {c : Config S} {t : ℕ} {a : S.Act} {k : S.Res a → Program S Unit} {r : S.Res a}
      {s : S.State} (ch : S.Choice) (ht : c.threads t = .act a k)
      (h : S.perform t a ch c.state = some (r, s)) :
      Step c (.act t a r) ⟨s, Function.update c.threads t (k r)⟩
  | env {c : Config S} {e : S.Env} {s : S.State} (h : S.env e c.state = some s) :
      Step c (.env e) ⟨s, c.threads⟩

/-- A run with its log, each step under the condition. -/
inductive Path (C : S.State → Label S → Prop) : Config S → List (Label S) → Config S → Prop where
  | nil {c : Config S} : Path C c [] c
  | snoc {c c₁ c₂ : Config S} {log : List (Label S)} {l : Label S} (h : Path C c log c₁)
      (hstep : Step c₁ l c₂) (hC : C c₁.state l) : Path C c (log ++ [l]) c₂

/-- No condition. -/
def Any (_ : S.State) (_ : Label S) : Prop := True

instance (s : S.State) (l : Label S) : Decidable (Any s l) := .isTrue trivial

section

variable {C : S.State → Label S → Prop} {c c' : Config S} {ls ls₁ ls₂ : List (Label S)}

theorem Path.one {l : Label S} (h : Step c l c') (hC : C c.state l) : Path C c [l] c' :=
  .snoc .nil h hC

theorem Path.append {c'' : Config S} (h₁ : Path C c ls₁ c') (h₂ : Path C c' ls₂ c'') :
    Path C c (ls₁ ++ ls₂) c'' := by
  induction h₂ with
  | nil => exact (List.append_nil ls₁).symm ▸ h₁
  | snoc _ hstep hC ih =>
      rw [← List.append_assoc]
      exact .snoc ih hstep hC

theorem Path.mono {C' : S.State → Label S → Prop} (h : Path C c ls c')
    (hC : ∀ s l, C s l → C' s l) : Path C' c ls c' := by
  induction h with
  | nil => exact .nil
  | snoc _ hstep h ih => exact .snoc ih hstep (hC _ _ h)

theorem Path.any (h : Path C c ls c') : Path Any c ls c' := by
  induction h with
  | nil => exact .nil
  | snoc _ hstep _ ih => exact .snoc ih hstep trivial

/-- What the condition says of the labels. -/
theorem Path.forall {P : Label S → Prop} (h : Path C c ls c') (hP : ∀ s l, C s l → P l) :
    ∀ l ∈ ls, P l := by
  induction h with
  | nil => exact fun l hl => absurd hl List.not_mem_nil
  | snoc _ _ hC ih =>
      intro l hl
      rcases List.mem_append.mp hl with hl | hl
      · exact ih l hl
      · exact List.mem_singleton.mp hl ▸ hP _ _ hC

/-- The last step. -/
theorem Path.snoc_inv {l : Label S} (h : Path C c (ls ++ [l]) c') :
    ∃ c₁, Path C c ls c₁ ∧ Step c₁ l c' ∧ C c₁.state l := by
  generalize hlog : ls ++ [l] = ls' at h
  cases h with
  | nil => exact absurd hlog (by simp)
  | snoc h hstep hC =>
      obtain ⟨rfl, hl⟩ := List.append_inj' hlog rfl
      obtain rfl := List.singleton_inj.mp hl
      exact ⟨_, h, hstep, hC⟩

/-- A path may be cut where its log may be. -/
theorem Path.split (h : Path C c (ls₁ ++ ls₂) c') :
    ∃ c₁, Path C c ls₁ c₁ ∧ Path C c₁ ls₂ c' := by
  induction ls₂ using List.reverseRecOn generalizing c' with
  | nil => exact ⟨c', List.append_nil ls₁ ▸ h, .nil⟩
  | append_singleton ls₂ l ih =>
      rw [← List.append_assoc] at h
      obtain ⟨c₂, h, hstep, hC⟩ := h.snoc_inv
      obtain ⟨c₁, h₁, h₂⟩ := ih h
      exact ⟨c₁, h₁, .snoc h₂ hstep hC⟩

/-- The step at a label of the log. -/
theorem Path.cut {l : Label S} (h : Path C c (ls₁ ++ l :: ls₂) c') :
    ∃ c₁ c₂, Path C c ls₁ c₁ ∧ Step c₁ l c₂ ∧ C c₁.state l ∧ Path C c₂ ls₂ c' := by
  rw [List.append_cons] at h
  obtain ⟨c₂, h₁, h₂⟩ := h.split
  obtain ⟨c₁, h₁, hstep, hC⟩ := h₁.snoc_inv
  exact ⟨c₁, c₂, h₁, hstep, hC, h₂⟩

/-! ### Paths are runs -/

theorem Step.next {l : Label S} (h : Step c l c') : ∃ e, c.next e = some c' := by
  cases h with
  | @call t op s u hidle h =>
      exact ⟨.call t op, by simp only [Config.next, hidle, h, Option.map_some]⟩
  | @act t a k r s ch ht h =>
      exact ⟨.step t ch, by simp only [Config.next, ht, h, Option.map_some]⟩
  | @env e s h => exact ⟨.env e, by simp only [Config.next, h, Option.map_some]⟩

/-- The label of an event, and the configuration after it. -/
def Config.labelled (c : Config S) : Event S → Option (Label S × Config S)
  | .call t op =>
      match c.threads t with
      | .ret _ =>
          (S.call t op c.state).map fun s =>
            (.call t op, ⟨s, Function.update c.threads t (S.body op)⟩)
      | .act _ _ => none
  | .step t ch =>
      match c.threads t with
      | .ret _ => none
      | .act a k =>
          (S.perform t a ch c.state).map fun p =>
            (.act t a p.1, ⟨p.2, Function.update c.threads t (k p.1)⟩)
  | .env e => (S.env e c.state).map fun s => (.env e, ⟨s, c.threads⟩)

theorem labelled_step {e : Event S} {l : Label S} (h : c.labelled e = some (l, c')) :
    Step c l c' ∧ c.next e = some c' := by
  cases e with
  | call t op =>
      cases ht : c.threads t with
      | ret u =>
          simp only [Config.labelled, ht, Option.map_eq_some_iff, Prod.mk.injEq] at h
          obtain ⟨s, hs, rfl, rfl⟩ := h
          exact ⟨.call ht hs, by simp only [Config.next, ht, hs, Option.map_some]⟩
      | act a k => simp [Config.labelled, ht] at h
  | step t ch =>
      cases ht : c.threads t with
      | ret u => simp [Config.labelled, ht] at h
      | act a k =>
          simp only [Config.labelled, ht, Option.map_eq_some_iff, Prod.mk.injEq] at h
          obtain ⟨p, hp, rfl, rfl⟩ := h
          exact ⟨.act ch ht hp, by simp only [Config.next, ht, hp, Option.map_some]⟩
  | env e =>
      simp only [Config.labelled, Option.map_eq_some_iff, Prod.mk.injEq] at h
      obtain ⟨s, hs, rfl, rfl⟩ := h
      exact ⟨.env hs, by simp only [Config.next, hs, Option.map_some]⟩

/-- The log of a run, `none` where an event cannot happen or does not meet the condition. -/
def Config.log (C : S.State → Label S → Prop) [∀ s l, Decidable (C s l)] (c : Config S) :
    List (Event S) → Option (List (Label S) × Config S)
  | [] => some ([], c)
  | e :: es =>
      match c.labelled e with
      | none => none
      | some (l, c₁) =>
          if C c.state l then (c₁.log C es).map fun p => (l :: p.1, p.2) else none

theorem log_path [∀ s l, Decidable (C s l)] {es : List (Event S)}
    (h : c.log C es = some (ls, c')) : Path C c ls c' := by
  induction es generalizing c ls with
  | nil =>
      obtain ⟨rfl, rfl⟩ := Prod.mk.inj (Option.some.inj h)
      exact .nil
  | cons e es ih =>
      simp only [Config.log] at h
      split at h
      next => cases h
      next l c₁ he =>
        split_ifs at h with hC
        obtain ⟨⟨ls, c₂⟩, hrest, heq⟩ := Option.map_eq_some_iff.mp h
        obtain ⟨rfl, rfl⟩ := Prod.mk.inj heq
        exact (Path.one (labelled_step he).1 hC).append (ih hrest)

/-- A run whose last label is observed. -/
theorem log_path_last [∀ s l, Decidable (C s l)] {es : List (Event S)} {β : Type}
    {f : Label S → Option β} {x : β}
    (h : (c.log C es).map (fun p => p.1.getLast?.bind f) = some (some x)) :
    ∃ ls l k, Path C c (ls ++ [l]) k ∧ f l = some x := by
  obtain ⟨⟨ls, k⟩, hlog, hlast⟩ := Option.map_eq_some_iff.mp h
  obtain ⟨l, hl, hf⟩ := Option.bind_eq_some_iff.mp hlast
  obtain ⟨ls, rfl⟩ := List.getLast?_eq_some_iff.mp hl
  exact ⟨ls, l, k, log_path hlog, hf⟩

theorem run_append {es es' : List (Event S)} :
    c.run (es ++ es') = (c.run es).bind fun c₁ => c₁.run es' := by
  induction es generalizing c with
  | nil => rfl
  | cons e es ih =>
      rw [List.cons_append, Config.run, Config.run, Option.bind_assoc]
      exact congrArg _ (funext fun c₁ => ih)

/-! ### The actions of one thread -/

/-- A trace of thread `t`, as labels. -/
def acts (t : ℕ) (tr : Trace S.Act S.Res) : List (Label S) := tr.map fun x => .act t x.1 x.2

/-- Thread `t` moves in the log as the trace says, and calls nothing. -/
def Performs (t : ℕ) (tr : Trace S.Act S.Res) (ls : List (Label S)) : Prop :=
  ls.filter (fun l => l.thread == some t) = acts t tr

theorem performs_append {t : ℕ} {tr₁ tr₂ : Trace S.Act S.Res} (h : Performs t (tr₁ ++ tr₂) ls) :
    ∃ ls₁ ls₂, ls = ls₁ ++ ls₂ ∧ Performs t tr₁ ls₁ ∧ Performs t tr₂ ls₂ := by
  rw [Performs, acts, List.map_append] at h
  exact List.filter_eq_append_iff.mp h

/-- An action of the trace is in the log, between what comes before and after it. -/
theorem performs_cut {t : ℕ} {tr₁ tr₂ : Trace S.Act S.Res} {a : S.Act} {r : S.Res a}
    (h : Performs t (tr₁ ++ ⟨a, r⟩ :: tr₂) ls) :
    ∃ ls₁ ls₂, ls = ls₁ ++ .act t a r :: ls₂ ∧ Performs t tr₁ ls₁ ∧ Performs t tr₂ ls₂ := by
  obtain ⟨ls₁, rest, rfl, h₁, hrest⟩ := performs_append h
  rw [Performs, acts, List.map_cons] at hrest
  obtain ⟨others, ls₂, rfl, hothers, -, h₂⟩ := List.filter_eq_cons_iff.mp hrest
  refine ⟨ls₁ ++ others, ls₂, by rw [List.append_assoc], ?_, h₂⟩
  rw [Performs, List.filter_append, h₁, List.filter_eq_nil_iff.mpr hothers, List.append_nil]

theorem Performs.mem_acts {t : ℕ} {tr : Trace S.Act S.Res} (h : Performs t tr ls) {l : Label S}
    (hl : l ∈ ls) (hthread : l.thread = some t) : l ∈ acts t tr := by
  rw [← h]
  exact List.mem_filter.mpr ⟨hl, beq_iff_eq.mpr hthread⟩

theorem Performs.mem {t : ℕ} {tr : Trace S.Act S.Res} (h : Performs t tr ls) {a : S.Act}
    {r : S.Res a} (hl : .act t a r ∈ ls) : ⟨a, r⟩ ∈ tr := by
  obtain ⟨⟨a', r'⟩, hx, heq⟩ := List.mem_map.mp (h.mem_acts hl rfl)
  cases heq
  exact hx

theorem Performs.mem_log {t : ℕ} {tr : Trace S.Act S.Res} (h : Performs t tr ls) {a : S.Act}
    {r : S.Res a} (hmem : ⟨a, r⟩ ∈ tr) : .act t a r ∈ ls := by
  have hl : .act t a r ∈ acts t tr := List.mem_map.mpr ⟨_, hmem, rfl⟩
  rw [← h] at hl
  exact (List.mem_filter.mp hl).1

/-- What is read off the labels of a thread is read off its trace. -/
theorem Performs.filterMap {β : Type} {t : ℕ} {tr : Trace S.Act S.Res} (h : Performs t tr ls)
    {f : Label S → Option β} (hf : ∀ l, l.thread ≠ some t → f l = none) :
    ls.filterMap f = (acts t tr).filterMap f := by
  rw [← h, List.filterMap_filter]
  refine List.filterMap_congr fun l _ => ?_
  split_ifs with hl
  · rfl
  · exact hf l fun he => hl (beq_iff_eq.mpr he)

theorem Performs.not_call {t : ℕ} {tr : Trace S.Act S.Res} (h : Performs t tr ls) (op : S.Op) :
    .call t op ∉ ls := by
  intro hl
  obtain ⟨x, -, heq⟩ := List.mem_map.mp (h.mem_acts hl rfl)
  cases heq

theorem Performs.nil {t : ℕ} : Performs (S := S) t [] [] := rfl

theorem Performs.snoc {t : ℕ} {tr : Trace S.Act S.Res} (h : Performs t tr ls) (a : S.Act)
    (r : S.Res a) : Performs t (tr ++ [⟨a, r⟩]) (ls ++ [.act t a r]) := by
  rw [Performs, List.filter_append, h, acts, acts, List.map_append]
  simp [Label.thread]

/-- A label of another thread. -/
theorem Performs.skip {t : ℕ} {tr : Trace S.Act S.Res} (h : Performs t tr ls) {l : Label S}
    (hl : l.thread ≠ some t) : Performs t tr (ls ++ [l]) := by
  rw [Performs, List.filter_append, h]
  simp [hl]

/-- A step of another thread leaves the thread's program alone. -/
theorem Step.threads_of_ne {l : Label S} {t : ℕ} (h : Step c l c') (hl : l.thread ≠ some t) :
    c'.threads t = c.threads t := by
  cases h with
  | call hidle h => exact Function.update_of_ne (fun he => hl (congrArg some he.symm)) _ _
  | act ch ht h => exact Function.update_of_ne (fun he => hl (congrArg some he.symm)) _ _
  | env h => rfl

/-- **What a thread performed** since its last call is a trace of the operation it called. -/
theorem Path.program {s : S.State} (h : Path C (start s) ls c) (t : ℕ) :
    (c.threads t = .ret () ∧ ∀ l ∈ ls, l.thread ≠ some t) ∨
      ∃ before op since tr, ls = before ++ .call t op :: since ∧ Performs t tr since ∧
        After (S.body op) tr (c.threads t) := by
  induction h with
  | nil => exact .inl ⟨rfl, fun l hl => absurd hl List.not_mem_nil⟩
  | @snoc c₁ c₂ ls l _ hstep _ ih =>
      by_cases hl : l.thread = some t
      · -- The thread itself moves: it begins an operation, or its trace grows by the action.
        cases hstep with
        | @call t' op s u hidle hs =>
            obtain rfl : t' = t := Option.some.inj hl
            refine .inr ⟨ls, op, [], [], rfl, .nil, ?_⟩
            simp only [Function.update_self]
            exact .nil _
        | @act t' a k r s ch ht hs =>
            obtain rfl : t' = t := Option.some.inj hl
            rcases ih with ⟨hidle, -⟩ | ⟨before, op, since, tr, rfl, htr, hafter⟩
            · rw [hidle] at ht
              cases ht
            · refine .inr ⟨before, op, since ++ [.act t' a r], tr ++ [⟨a, r⟩], ?_, htr.snoc a r, ?_⟩
              · rw [List.append_assoc, List.cons_append]
              · rw [ht] at hafter
                simp only [Function.update_self]
                exact hafter.append (.cons (.nil _))
        | env hs => cases hl
      · rw [hstep.threads_of_ne hl]
        rcases ih with ⟨hidle, hnone⟩ | ⟨before, op, since, tr, rfl, htr, hafter⟩
        · refine .inl ⟨hidle, fun l' hl' => ?_⟩
          rcases List.mem_append.mp hl' with hl' | hl'
          · exact hnone l' hl'
          · exact List.mem_singleton.mp hl' ▸ hl
        · refine .inr ⟨before, op, since ++ [l], tr, ?_, htr.skip hl, hafter⟩
          rw [List.append_assoc, List.cons_append]

/-- The operation whose program comes to an action. -/
theorem Path.at_act {s : S.State} (h : Path C (start s) ls c) {t : ℕ} {a : S.Act}
    {k : S.Res a → Program S Unit} (ht : c.threads t = .act a k) :
    ∃ before op since tr, ls = before ++ .call t op :: since ∧ Performs t tr since ∧
      After (S.body op) tr (.act a k) := by
  rcases h.program t with ⟨hidle, -⟩ | ⟨before, op, since, tr, hlog, htr, hafter⟩
  · rw [ht] at hidle
    cases hidle
  · rw [ht] at hafter
    exact ⟨before, op, since, tr, hlog, htr, hafter⟩

theorem Path.performs {t : ℕ} (h : Path C c ls c') (hcalls : ∀ op, .call t op ∉ ls) :
    ∃ tr, Performs t tr ls ∧ After (c.threads t) tr (c'.threads t) := by
  induction h with
  | nil => exact ⟨[], .nil, .nil _⟩
  | @snoc c₁ c₂ ls l _ hstep _ ih =>
      obtain ⟨tr, htr, hafter⟩ := ih fun op hl => hcalls op (List.mem_append_left _ hl)
      by_cases hl : l.thread = some t
      · cases hstep with
        | @call t' op s u hidle hs =>
            obtain rfl : t' = t := Option.some.inj hl
            exact absurd (List.mem_append_right _ (List.mem_singleton_self _)) (hcalls op)
        | @act t' a k r s ch ht hs =>
            obtain rfl : t' = t := Option.some.inj hl
            refine ⟨tr ++ [⟨a, r⟩], htr.snoc a r, ?_⟩
            rw [ht] at hafter
            simp only [Function.update_self]
            exact hafter.append (.cons (.nil _))
        | env hs => cases hl
      · rw [hstep.threads_of_ne hl]
        exact ⟨tr, htr.skip hl, hafter⟩

/-- What a thread performed since a call is a trace of the operation. -/
theorem Path.called {t : ℕ} {op : S.Op} (h : Path C c (ls₁ ++ .call t op :: ls₂) c')
    (hcalls : ∀ op', .call t op' ∉ ls₂) :
    ∃ tr, Performs t tr ls₂ ∧ After (S.body op) tr (c'.threads t) := by
  obtain ⟨c₁, c₂, -, hcall, -, h₂⟩ := h.cut
  cases hcall with
  | call hidle hs =>
      have hperforms := h₂.performs hcalls
      simpa only [Function.update_self] using hperforms

/-- Every call has returned. -/
def Config.Finished (c : Config S) : Prop := ∀ t, ∃ u, c.threads t = .ret u

/-- The threads that moved are among the given ones, and those are idle again. -/
def finishedBy (ts : List ℕ) (ls : List (Label S)) (c : Config S) : Bool :=
  (ls.all fun l => l.thread.all fun t => ts.contains t) && ts.all fun t => (c.threads t).isRet

theorem Path.finished {s : S.State} {ts : List ℕ} (h : Path C (start s) ls c)
    (hfinished : finishedBy ts ls c = true) : c.Finished := by
  obtain ⟨hmoved, hidle⟩ := Bool.and_eq_true_iff.mp hfinished
  intro t
  rcases h.program t with ⟨hret, -⟩ | ⟨before, op, since, tr, rfl, -, -⟩
  · exact ⟨(), hret⟩
  · have hcall := List.all_eq_true.mp hmoved (.call t op) (by simp)
    rw [Label.thread, Option.all_some, List.contains_iff_mem] at hcall
    exact Prog.isRet_iff.mp (List.all_eq_true.mp hidle t hcall)

end

/-! ### One thread alone, with its trace -/

/-- The program performs the trace from one state to another and is left with `q`, no other thread
acting. -/
inductive Solo (t : ℕ) : Program S Unit → S.State → Trace S.Act S.Res → Program S Unit →
    S.State → Prop where
  | nil (p : Program S Unit) (s : S.State) : Solo t p s [] p s
  | cons (ch : S.Choice) {a : S.Act} {k : S.Res a → Program S Unit} {r : S.Res a}
      {s s' s'' : S.State} {tr : Trace S.Act S.Res} {q : Program S Unit}
      (h : S.perform t a ch s = some (r, s')) (hk : Solo t (k r) s' tr q s'') :
      Solo t (.act a k) s (⟨a, r⟩ :: tr) q s''

/-- One more action in front, whatever is known of the end. -/
theorem Solo.exists_cons {t : ℕ} {P : Program S Unit → S.State → Prop} (ch : S.Choice) {a : S.Act}
    {k : S.Res a → Program S Unit} {r : S.Res a} {s s' : S.State} {tr : Trace S.Act S.Res}
    (h : S.perform t a ch s = some (r, s')) (hk : ∃ q s'', Solo t (k r) s' tr q s'' ∧ P q s'') :
    ∃ q s'', Solo t (.act a k) s (⟨a, r⟩ :: tr) q s'' ∧ P q s'' := by
  obtain ⟨q, s'', hsolo, hP⟩ := hk
  exact ⟨q, s'', .cons ch h hsolo, hP⟩

/-- It is a path of the pool. -/
theorem Solo.path {C : S.State → Label S → Prop} {t : ℕ} {p q : Program S Unit} {s s' : S.State}
    {tr : Trace S.Act S.Res} (h : Solo t p s tr q s') (hC : ∀ x ∈ tr, ∀ s, C s (.act t x.1 x.2))
    (threads : ℕ → Program S Unit) (ht : threads t = p) :
    Path C ⟨s, threads⟩ (acts t tr) ⟨s', Function.update threads t q⟩ := by
  induction h generalizing threads with
  | nil p s =>
      rw [← ht, Function.update_eq_self]
      exact .nil
  | @cons ch a k r s s' s'' tr q h hk ih =>
      obtain ⟨hfirst, hrest⟩ := List.forall_mem_cons.mp hC
      have hpath := ih hrest (Function.update threads t (k r)) (Function.update_self ..)
      rw [Function.update_idem] at hpath
      exact (Path.one (.act ch ht h) (hfirst s)).append hpath

/-! ### Under a discipline -/

namespace Discipline

variable {D : Discipline S} {C : S.State → Label S → Prop} {c c' : Config S} {ls : List (Label S)}

theorem step_ok (hD : D.Kept) {l : Label S} (h : D.Ok c) (hstep : Step c l c') : D.Ok c' := by
  obtain ⟨e, he⟩ := hstep.next
  exact next_ok hD h he

theorem path_ok (hD : D.Kept) (h : D.Ok c) (hpath : Path C c ls c') : D.Ok c' := by
  induction hpath with
  | nil => exact h
  | snoc _ hstep _ ih => exact step_ok hD ih hstep

/-- A thread bears the steps of the others. -/
theorem step_rely (hD : D.Kept) {l : Label S} {t : ℕ} (h : D.Ok c) (hstep : Step c l c')
    (hl : l.thread ≠ some t) : D.rely t c.state c'.state := by
  cases hstep with
  | @call u op s x hidle hs =>
      have hidle' : D.idle u c.state := by
        have hsafe := h.safe u
        rw [hidle] at hsafe
        exact hsafe
      exact (hD.call h.inv hidle' hs).2.1 t fun he => hl (congrArg some he.symm)
  | @act u a k r s ch ht hs =>
      exact (hD.step h.inv (h.pre ht) hs).2 t fun he => hl (congrArg some he.symm)
  | env hs => exact (hD.env h.inv hs).2 t

/-- **Between the actions of a thread** what is stable under the other threads stays, if the
thread's own actions keep it. -/
theorem path_keeps (hD : D.Kept) {t : ℕ} {I : S.State → Prop} (hstable : D.Stable t I)
    (h : D.Ok c) (hI : I c.state) (hpath : Path C c ls c')
    (hown : ∀ a r, .act t a r ∈ ls → ∀ s ch s', D.inv s → I s →
      S.perform t a ch s = some (r, s') → I s')
    (hcall : ∀ op, .call t op ∉ ls) : I c'.state := by
  induction hpath with
  | nil => exact hI
  | @snoc c₁ c₂ ls l hpath hstep _ ih =>
      have hok := path_ok hD h hpath
      have hI₁ := ih (fun a r hl => hown a r (List.mem_append_left _ hl))
        fun op hl => hcall op (List.mem_append_left _ hl)
      by_cases hl : l.thread = some t
      · cases hstep with
        | @call u op s x hidle hs =>
            obtain rfl : u = t := Option.some.inj hl
            exact absurd (List.mem_append_right _ (List.mem_singleton_self _)) (hcall op)
        | @act u a k r s ch ht hs =>
            obtain rfl : u = t := Option.some.inj hl
            exact hown a r (List.mem_append_right _ (List.mem_singleton_self _)) _ ch _ hok.inv hI₁ hs
        | env hs => cases hl
      · exact hstable _ _ hI₁ (step_rely hD hok hstep hl)

end Discipline

end Support.Pool
