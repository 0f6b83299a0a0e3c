import Robstride.Motor.Counting
import Robstride.Motor.Programs

/-!
# Motor — Saturation

The overrun check as a counter that saturates at `overrun_limit` and at zero (`saturate`): a send
counts up and is refused at the limit, a parsed frame counts down.  In a run whose sends and frames
come one after another (`Sequential`, as where operations run one by one),
`unacknowledged_commands_` is that counter, and a refused send transmits the stop frame alone
(`Refines`), exactly if the limit is less than 2^31 - 1 (`refines_iff`): from 2^31 on,
`(int)overrun_limit_` is negative and the first send is refused (`first_send_refused`), and at
2^31 - 1 the counter wraps before it is over the limit.
-/

namespace Robstride

open Support Support.Prog Support.Pool

/-! ### The saturating counter -/

/-- What the counter counts: a send, and a frame parsed. -/
inductive CounterOp where
  | send
  | frame

/-- One more up to the limit `L`, or one less down to zero. -/
def saturate (L n : ℕ) : CounterOp → ℕ
  | .send => if n < L then n + 1 else n
  | .frame => n - 1

theorem saturate_le {L n : ℕ} (h : n ≤ L) (op : CounterOp) : saturate L n op ≤ L := by
  cases op with
  | send =>
      simp only [saturate]
      split_ifs with hn
      · exact hn
      · exact h
  | frame => exact (Nat.sub_le n 1).trans h

theorem foldl_saturate_le {L n : ℕ} (h : n ≤ L) (ops : List CounterOp) :
    ops.foldl (saturate L) n ≤ L := by
  induction ops generalizing n with
  | nil => exact h
  | cons op ops ih => exact ih (saturate_le h op)

section

variable {m : Motor} {log : List (Label m.system)} {t : ℕ} {s s' : State} {φ : ℕ → Phase}
  {a : Action} {ch : Choice} {r : a.Res}

/-- A send counts itself, and a frame that is parsed will be counted. -/
def counterOp : Label m.system → Option CounterOp
  | .act _ .fetchAdd _ => some .send
  | .act _ (.parse _) accepted => if accepted = true then some .frame else none
  | _ => none

/-- The saturating counter after a log. -/
def count (log : List (Label m.system)) : ℕ :=
  (log.filterMap counterOp).foldl (saturate m.overrunLimit.toNat) 0

theorem count_le (log : List (Label m.system)) : count log ≤ m.overrunLimit.toNat :=
  foldl_saturate_le (Nat.zero_le _) _

theorem count_snoc (log : List (Label m.system)) (l : Label m.system) :
    count (log ++ [l]) =
      (counterOp l).elim (count log) (saturate m.overrunLimit.toNat (count log)) := by
  rw [count, List.filterMap_append, List.foldl_append]
  cases h : counterOp l with
  | none => simp [h, count]
  | some op => simp [h, count]

/-! ### One after another -/

/-- The thread that is between its accesses to the counter. -/
def turnStep (τ : Option ℕ) : Label m.system → Option ℕ
  | .act t .fetchAdd pending => if m.overrunLimit.slt pending = true then some t else none
  | .act t (.parse _) accepted => if accepted = true then some t else τ
  | .act t (.fetchSub _) prev => if prev.sle 0 = true then some t else none
  | .act _ (.store _) _ => none
  | _ => τ

/-- The thread that is between its accesses to the counter, after a log. -/
def turn (log : List (Label m.system)) : Option ℕ := log.foldl turnStep none

theorem turn_snoc (log : List (Label m.system)) (l : Label m.system) :
    turn (log ++ [l]) = turnStep (turn log) l := by
  rw [turn, List.foldl_append, List.foldl_cons, List.foldl_nil]
  rfl

/-- Sends and frames come one after another, as far as the counter can tell: none is counted while
another is between its accesses. -/
def Sequential (log : List (Label m.system)) : Prop :=
  ∀ before l after, log = before ++ l :: after → (counterOp l).isSome = true → turn before = none

theorem Sequential.left {log' : List (Label m.system)} (h : Sequential (log ++ log')) :
    Sequential log := by
  rintro before l after rfl hl
  exact h before l (after ++ log') (by simp) hl

theorem Sequential.last {l : Label m.system} (h : Sequential (log ++ [l]))
    (hl : (counterOp l).isSome = true) : turn log = none := h log l [] rfl hl

theorem Sequential.snoc {l : Label m.system} (h : Sequential log)
    (hl : (counterOp l).isSome = true → turn log = none) : Sequential (log ++ [l]) := by
  intro before l' after heq hl'
  rcases List.eq_nil_or_concat after with rfl | ⟨after, l'', rfl⟩
  · obtain ⟨rfl, hlast⟩ := List.append_inj' heq rfl
    obtain rfl := List.singleton_inj.mp hlast
    exact hl hl'
  · have hinit : log = before ++ l' :: after := by
      rw [List.concat_eq_append, ← List.cons_append, ← List.append_assoc] at heq
      exact (List.append_inj' heq rfl).1
    exact h before l' after hinit hl'

theorem Sequential.quiet {log' : List (Label m.system)} (h : Sequential log)
    (hquiet : ∀ l ∈ log', counterOp l = none) : Sequential (log ++ log') := by
  induction log' using List.reverseRecOn with
  | nil => exact (List.append_nil log).symm ▸ h
  | append_singleton log' l ih =>
      rw [← List.append_assoc]
      refine (ih fun l' hl' => hquiet l' (List.mem_append_left _ hl')).snoc fun hl => ?_
      rw [hquiet l (by simp)] at hl
      cases hl

/-! ### The invariant -/

/-- The thread is between its accesses to the counter. -/
def Phase.Busy : Phase → Prop
  | exceeded | parsed | clearing => True
  | free | held => False

/-- What the counter `pending` and the saturating counter `n` are while a thread is between its
accesses. -/
def Phase.Tells (L n : ℕ) (pending : ℤ) : Phase → Prop
  | exceeded => n = L
  | parsed => ∃ c : ℕ, pending = c ∧ c ≤ L ∧ n = c - 1
  | clearing => n = 0
  | free | held => False

/-- The thread whose turn it is, alone, is between its accesses; when it is nobody's, the counter is
the saturating counter. -/
structure Saturated (log : List (Label m.system)) (s : State) (φ : ℕ → Phase) : Prop where
  idle : ∀ u, turn log ≠ some u → ¬ (φ u).Busy
  counter : turn log = none → s.pending = count log
  busy : ∀ u, turn log = some u → (φ u).Tells m.overrunLimit.toNat (count log) s.pending

/-- Between its accesses a thread performs nothing but the next one. -/
theorem Phase.Busy.setsCounter {ψ : Phase} (hψ : ψ.Busy) (hok : Phase.Allows m ψ a) :
    a.SetsCounter ∧ a ≠ .fetchAdd := by
  cases ψ with
  | free | held => exact hψ.elim
  | exceeded | clearing =>
      cases a with
      | store value => exact ⟨trivial, Action.noConfusion⟩
      | _ => exact hok.elim
  | parsed =>
      cases a with
      | fetchSub reply => exact ⟨trivial, Action.noConfusion⟩
      | _ => exact hok.elim

/-- Another action does not begin or end a turn. -/
theorem next_not_busy {ψ : Phase} (hok : Phase.Allows m ψ a) (ha : ¬ a.SetsCounter)
    (hop : counterOp (Label.act (S := m.system) t a r) = none) :
    ¬ ψ.Busy ∧ ¬ (Phase.next m ψ a r).Busy := by
  have hψ : ¬ ψ.Busy := fun hψ => ha (hψ.setsCounter hok).1
  refine ⟨hψ, ?_⟩
  cases a with
  | fetchAdd | fetchSub _ | store _ => exact absurd trivial ha
  | parse reply =>
      have hr : r = false := by simpa [counterOp] using hop
      rw [hr]
      exact id
  | startWait timeoutMs =>
      simp only [Phase.next]
      split_ifs <;> exact id
  | lockMotor | wake | unlockMotor => exact id
  | _ => exact hψ

/-- A turn is somebody's between its accesses. -/
theorem busy_of_turnStep {τ : Option ℕ} {ψ : Phase} (hok : Phase.Allows m ψ a)
    (hown : ∀ u, τ = some u → u = t ∧ ψ.Busy) {u : ℕ}
    (hu : turnStep τ (Label.act (S := m.system) t a r) = some u) :
    u = t ∧ (Phase.next m ψ a r).Busy := by
  have hsets : ∀ u, τ = some u → a.SetsCounter ∧ a ≠ .fetchAdd := fun u hτ =>
    (hown u hτ).2.setsCounter hok
  cases a with
  | fetchAdd =>
      simp only [turnStep] at hu
      split_ifs at hu with hover
      have hnext : Phase.next m ψ .fetchAdd r = .exceeded := if_pos hover
      exact ⟨(Option.some.inj hu).symm, hnext ▸ trivial⟩
  | fetchSub reply =>
      simp only [turnStep] at hu
      split_ifs at hu with hprev
      have hnext : Phase.next m ψ (.fetchSub reply) r = .clearing := if_pos hprev
      exact ⟨(Option.some.inj hu).symm, hnext ▸ trivial⟩
  | store value => cases hu
  | parse reply =>
      simp only [turnStep] at hu
      split_ifs at hu with haccepted
      · have hnext : Phase.next m ψ (.parse reply) r = .parsed := if_pos haccepted
        exact ⟨(Option.some.inj hu).symm, hnext ▸ trivial⟩
      · exact absurd (hsets u hu).1 id
  | _ => exact absurd (hsets u hu).1 id

namespace Saturated

theorem turn_of_busy (h : Saturated log s φ) (hφ : (φ t).Busy) : turn log = some t :=
  by_contra fun hne => h.idle t hne hφ

/-- The thread takes its turn, or goes on in it. -/
theorem take {ψ : Phase} {l : Label m.system} (h : Saturated log s φ)
    (hown : ∀ u, turn log = some u → u = t) (hturn : turn (log ++ [l]) = some t)
    (htells : ψ.Tells m.overrunLimit.toNat (count (log ++ [l])) s'.pending) :
    Saturated (log ++ [l]) s' (Function.update φ t ψ) where
  idle u hu := by
    have hne : u ≠ t := fun heq => hu (heq ▸ hturn)
    rw [Function.update_of_ne hne]
    exact h.idle u fun he => hne (hown u he)
  counter hturn' := by
    rw [hturn] at hturn'
    cases hturn'
  busy u hu := by
    obtain rfl : t = u := Option.some.inj (hturn.symm.trans hu)
    rw [Function.update_self]
    exact htells

/-- The turn ends, or has not begun. -/
theorem done {ψ : Phase} {l : Label m.system} (h : Saturated log s φ)
    (hown : ∀ u, turn log = some u → u = t) (hturn : turn (log ++ [l]) = none) (hψ : ¬ ψ.Busy)
    (hcounter : s'.pending = count (log ++ [l])) :
    Saturated (log ++ [l]) s' (Function.update φ t ψ) where
  idle u _ := by
    rcases eq_or_ne u t with rfl | hne
    · rw [Function.update_self]
      exact hψ
    · rw [Function.update_of_ne hne]
      exact h.idle u fun he => hne (hown u he)
  counter _ := hcounter
  busy u hu := by
    rw [hturn] at hu
    cases hu

/-- A step that has nothing to do with the counter. -/
theorem other {ψ : Phase} {l : Label m.system} (h : Saturated log s φ) (hφ : ¬ (φ t).Busy)
    (hψ : ¬ ψ.Busy) (hturn : turn (log ++ [l]) = turn log) (hcount : count (log ++ [l]) = count log)
    (hpending : s'.pending = s.pending) : Saturated (log ++ [l]) s' (Function.update φ t ψ) where
  idle u hu := by
    rcases eq_or_ne u t with rfl | hne
    · rw [Function.update_self]
      exact hψ
    · rw [Function.update_of_ne hne]
      exact h.idle u (hturn ▸ hu)
  counter hturn' := by
    rw [hpending, hcount]
    exact h.counter (hturn ▸ hturn')
  busy u hu := by
    -- The thread whose turn it is is between its accesses, and the one that moves is not.
    have htells := h.busy u (hturn ▸ hu)
    have hne : u ≠ t := by
      rintro rfl
      cases hcase : φ u with
      | free | held =>
          rw [hcase] at htells
          exact htells
      | exceeded | parsed | clearing =>
          rw [hcase] at hφ
          exact hφ trivial
    rw [Function.update_of_ne hne, hpending, hcount]
    exact htells

/-- A command that is counted is refused exactly at the limit. -/
theorem overruns_iff (hL : m.overrunLimit.toNat < 2 ^ 31 - 1) (h : Saturated log s φ)
    (hnone : turn log = none) :
    (s.vars.unacknowledgedCommands + 1).toInt = count log + 1 ∧
      (m.overrunLimit.slt (s.vars.unacknowledgedCommands + 1) = true ↔
        count log = m.overrunLimit.toNat) := by
  have hcounter := h.counter hnone
  rw [State.pending] at hcounter
  have hle := count_le log
  have hlimit : m.overrunLimit.toInt = m.overrunLimit.toNat :=
    BitVec.toInt_eq_toNat_of_lt (by omega)
  have hmax : s.vars.unacknowledgedCommands ≠ BitVec.intMax 32 := by
    intro heq
    have hvalue : (BitVec.intMax 32).toInt = 2147483647 := by decide
    rw [heq, hvalue] at hcounter
    omega
  have hadd := toInt_add_one hmax
  rw [hcounter] at hadd
  refine ⟨hadd, ?_⟩
  rw [BitVec.slt_iff_toInt_lt, hadd, hlimit]
  omega

/-- A command is counted. -/
theorem fetchAdd {pending : BitVec 32} (hL : m.overrunLimit.toNat < 2 ^ 31 - 1)
    (h : Saturated log s φ) (hnone : turn log = none)
    (hs : m.perform t .fetchAdd ch s = some (pending, s')) :
    Saturated (log ++ [Label.act (S := m.system) t .fetchAdd pending]) s'
      (Function.update φ t (Phase.next m (φ t) .fetchAdd pending)) := by
  obtain ⟨hadd, hover⟩ := h.overruns_iff hL hnone
  obtain ⟨rfl, rfl⟩ := Prod.mk.inj (Option.some.inj hs)
  have hown : ∀ u, turn log = some u → u = t := fun u hu => nomatch hnone.symm.trans hu
  have hle := count_le log
  by_cases hlimit : count log = m.overrunLimit.toNat
  · -- At the limit the command is refused, and the thread goes on to set the counter back.
    have hslt := hover.mpr hlimit
    have hnext : Phase.next m (φ t) .fetchAdd (s.vars.unacknowledgedCommands + 1) = .exceeded :=
      if_pos hslt
    have hcount : saturate m.overrunLimit.toNat (count log) .send = m.overrunLimit.toNat := by
      rw [saturate, hlimit, if_neg (lt_irrefl _)]
    rw [hnext]
    refine h.take hown ?_ ?_
    · rw [turn_snoc]
      exact if_pos hslt
    · rw [count_snoc]
      exact hcount
  · -- Below it the command is admitted, and the turn is over.
    have hslt : ¬ _ := mt hover.mp hlimit
    have hnext : Phase.next m (φ t) .fetchAdd (s.vars.unacknowledgedCommands + 1) = .free :=
      if_neg hslt
    have hcount : saturate m.overrunLimit.toNat (count log) .send = count log + 1 :=
      if_pos (lt_of_le_of_ne hle hlimit)
    rw [hnext]
    refine h.done hown ?_ id ?_
    · rw [turn_snoc]
      exact if_neg hslt
    · rw [count_snoc]
      exact hadd.trans (congrArg Nat.cast hcount).symm

/-- A frame is parsed. -/
theorem parse {reply : Reply} (h : Saturated log s φ) (hnone : turn log = none)
    (hs : m.perform t (.parse reply) ch s = some (true, s')) :
    Saturated (log ++ [Label.act (S := m.system) t (.parse reply) true]) s'
      (Function.update φ t (Phase.next m (φ t) (.parse reply) true)) := by
  have hown : ∀ u, turn log = some u → u = t := fun u hu => nomatch hnone.symm.trans hu
  have hpending : s'.pending = s.pending := congrArg BitVec.toInt (perform_counter id hs).1
  refine h.take hown ?_ ?_
  · rw [turn_snoc, turnStep, if_pos rfl]
  · rw [count_snoc]
    exact ⟨count log, hpending.trans (h.counter hnone), count_le log, rfl⟩

/-- A frame is counted. -/
theorem fetchSub {reply : Reply} {prev : BitVec 32} (h : Saturated log s φ) (hφ : φ t = .parsed)
    (hs : m.perform t (.fetchSub reply) ch s = some (prev, s')) :
    Saturated (log ++ [Label.act (S := m.system) t (.fetchSub reply) prev]) s'
      (Function.update φ t (Phase.next m (φ t) (.fetchSub reply) prev)) := by
  have hturn : turn log = some t := h.turn_of_busy (by rw [hφ]; trivial)
  have hown : ∀ u, turn log = some u → u = t := fun u hu => Option.some.inj (hu.symm.trans hturn)
  have htells := h.busy t hturn
  rw [hφ] at htells
  obtain ⟨c, hpending, hle, hcount⟩ := htells
  obtain ⟨rfl, rfl⟩ := Prod.mk.inj (Option.some.inj hs)
  have hsle : s.vars.unacknowledgedCommands.sle 0 = true ↔ c = 0 := by
    have hle₀ := @BitVec.sle_iff_toInt_le 32 s.vars.unacknowledgedCommands 0
    rw [State.pending] at hpending
    rw [hle₀, hpending]
    exact Int.natCast_nonpos_iff
  by_cases hzero : c = 0
  · -- The counter is below zero until it is reset; the saturating one stays at zero.
    have hprev := hsle.mpr hzero
    have hnext : Phase.next m (φ t) (.fetchSub reply) s.vars.unacknowledgedCommands = .clearing :=
      if_pos hprev
    rw [hnext]
    refine h.take hown ?_ ?_
    · rw [turn_snoc]
      exact if_pos hprev
    · rw [count_snoc]
      exact hcount.trans (by rw [hzero])
  · have hprev : ¬ _ := mt hsle.mp hzero
    have hnext : Phase.next m (φ t) (.fetchSub reply) s.vars.unacknowledgedCommands = .held :=
      if_neg hprev
    have hpos : 0 < s.pending := by omega
    rw [hnext]
    refine h.done hown ?_ id ?_
    · rw [turn_snoc]
      exact if_neg hprev
    · rw [count_snoc]
      refine (toInt_sub_one hpos).trans ?_
      rw [State.pending] at hpending
      rw [hpending]
      simp only [counterOp, Option.elim_none, hcount]
      omega

/-- The counter is set back to the limit, or reset. -/
theorem store {value : BitVec 32} (h : Saturated log s φ) (hL : m.overrunLimit.toNat < 2 ^ 31 - 1)
    (hok : Phase.Allows m (φ t) (.store value))
    (hs : m.perform t (.store value) ch s = some ((), s')) :
    Saturated (log ++ [Label.act (S := m.system) t (.store value) ()]) s'
      (Function.update φ t (Phase.next m (φ t) (.store value) ())) := by
  have hbusy : (φ t).Busy := by
    rcases Phase.of_store hok with ⟨hφ, -⟩ | ⟨hφ, -⟩ <;> rw [hφ] <;> trivial
  have hturn := h.turn_of_busy hbusy
  have hown : ∀ u, turn log = some u → u = t := fun u hu => Option.some.inj (hu.symm.trans hturn)
  have htells := h.busy t hturn
  obtain ⟨-, rfl⟩ := Prod.mk.inj (Option.some.inj hs)
  rcases Phase.of_store hok with ⟨hφ, rfl⟩ | ⟨hφ, rfl⟩
  · -- Set back to the limit, where the saturating counter stopped.
    have hlimit : m.overrunLimit.toInt = m.overrunLimit.toNat :=
      BitVec.toInt_eq_toNat_of_lt (by omega)
    rw [hφ] at htells ⊢
    refine h.done hown (turn_snoc _ _) id ?_
    rw [count_snoc]
    exact hlimit.trans (congrArg Nat.cast htells).symm
  · rw [hφ] at htells ⊢
    refine h.done hown (turn_snoc _ _) id ?_
    rw [count_snoc]
    exact (congrArg Nat.cast htells).symm

/-- **Every step** of a sequential run. -/
theorem step (hL : m.overrunLimit.toNat < 2 ^ 31 - 1) (h : Saturated log s φ)
    (hseq : Sequential (log ++ [Label.act (S := m.system) t a r])) (hok : Phase.Allows m (φ t) a)
    (hs : m.perform t a ch s = some (r, s')) :
    Saturated (log ++ [Label.act (S := m.system) t a r]) s'
      (Function.update φ t (Phase.next m (φ t) a r)) := by
  have hother : ¬ a.SetsCounter → counterOp (Label.act (S := m.system) t a r) = none →
      turnStep (turn log) (Label.act (S := m.system) t a r) = turn log →
        Saturated (log ++ [Label.act (S := m.system) t a r]) s'
          (Function.update φ t (Phase.next m (φ t) a r)) := by
    intro ha hop hturn
    obtain ⟨hφ, hψ⟩ := next_not_busy hok ha hop
    refine h.other hφ hψ ((turn_snoc _ _).trans hturn) ?_ ?_
    · rw [count_snoc, hop, Option.elim_none]
    · exact congrArg BitVec.toInt (perform_counter ha hs).1
  cases a with
  | fetchAdd => exact h.fetchAdd hL (hseq.last rfl) hs
  | fetchSub reply => exact h.fetchSub (Phase.of_fetchSub hok) hs
  | store value => exact h.store hL hok hs
  | parse reply =>
      cases r with
      | true => exact h.parse (hseq.last rfl) hs
      | false => exact hother id rfl rfl
  | _ => exact hother id rfl rfl

/-- A label that is not of an action. -/
theorem quiet (h : Saturated log s φ) (hvars : s'.vars = s.vars) {l : Label m.system}
    (hop : counterOp l = none) (hturn : turnStep (turn log) l = turn log) :
    Saturated (log ++ [l]) s' φ := by
  have hcount : count (log ++ [l]) = count log := by rw [count_snoc, hop, Option.elim_none]
  have hpending : s'.pending = s.pending := by rw [State.pending, State.pending, hvars]
  refine ⟨?_, ?_, ?_⟩
  · rw [turn_snoc, hturn]
    exact h.idle
  · rw [turn_snoc, hturn, hcount, hpending]
    exact h.counter
  · rw [turn_snoc, hturn, hcount, hpending]
    exact h.busy

end Saturated

theorem path_saturated (hL : m.overrunLimit.toNat < 2 ^ 31 - 1)
    {C : State → Label m.system → Prop} {k : Config m.system} (h : Path C m.initial log k)
    (hseq : Sequential log) : ∃ φ, Saturated log k.state φ := by
  have hinitial : Sequential (m := m) [] → Saturated (m := m) [] m.initialState fun _ => .free :=
    fun _ => ⟨fun _ _ => id, fun _ => rfl, fun _ hturn => nomatch hturn⟩
  obtain ⟨φ, -, hsaturated⟩ : ∃ φ, m.phases.Follows k φ ∧
      (Sequential log → Saturated log k.state φ) := by
    refine Phases.path_induction (phases_kept m) (discipline_kept m)
      (P := fun ls s φ => Sequential ls → Saturated ls s φ) ?_ ?_ ?_ (initial_ok m) hinitial h
    · intro ls s φ t a ch r s' _ _ _ hok hP hs hseq
      exact (hP hseq.left).step hL hseq hok hs
    · intro ls s φ t op s' hP hs hseq
      exact (hP hseq.left).quiet (call_vars hs) rfl rfl
    · intro ls s φ e s' hP hs hseq
      exact (hP hseq.left).quiet (env_vars hs) rfl rfl
  exact ⟨φ, hsaturated hseq⟩

/-! ### One operation at a time -/

/-- Each operation is over before another one moves. -/
def OneByOne (log : List (Label m.system)) : Prop :=
  ∀ before t a r after, log = before ++ .act t a r :: after →
    ∀ c, Path Any m.initial before c → ∀ u, u ≠ t → c.threads u = .ret ()

theorem OneByOne.left {log' : List (Label m.system)} (h : OneByOne (log ++ log')) :
    OneByOne log := by
  rintro before t a r after rfl
  exact h before t a r (after ++ log') (by simp)

/-- **Operations that run one by one** make a sequential run. -/
theorem OneByOne.sequential {C : State → Label m.system → Prop} {k : Config m.system}
    (hone : OneByOne log) (h : Path C m.initial log k) : Sequential log := by
  suffices hbusy : ∃ φ, m.phases.Follows k φ ∧ (∀ u, turn log = some u → Phase.Busy (φ u)) ∧
      Sequential log from hbusy.choose_spec.2.2
  induction h with
  | nil =>
      refine ⟨_, m.phases.start_follows _, fun u hu => ?_, fun before l after heq => ?_⟩
      · cases hu
      · exact absurd heq (by simp)
  | @snoc c₁ c₂ log l hpath hstep hC ih =>
      obtain ⟨φ, hfollows, hbusy, hseq⟩ := ih hone.left
      refine ⟨_, hfollows.step (phases_kept m) hstep, ?_⟩
      cases hstep with
      | call hidle hs =>
          rw [turn_snoc]
          exact ⟨hbusy, hseq.snoc fun hop => by cases hop⟩
      | env hs =>
          rw [turn_snoc]
          exact ⟨hbusy, hseq.snoc fun hop => by cases hop⟩
      | @act t a k r s ch ht hs =>
          have hok := hfollows t
          rw [ht] at hok
          -- A thread whose turn it is is not over, so it is the one that moves.
          have hown : ∀ u, turn log = some u → u = t ∧ Phase.Busy (φ t) := by
            intro u hu
            have hsame : u = t := by
              by_contra hne
              have hidle := hfollows u
              rw [hone log t a r [] rfl c₁ hpath.any u hne] at hidle
              have hφ : φ u = .free := hidle
              have hu' := hbusy u hu
              rw [hφ] at hu'
              exact hu'
            exact ⟨hsame, hsame ▸ hbusy u hu⟩
          refine ⟨fun u hu => ?_, hseq.snoc fun hop => ?_⟩
          · rw [turn_snoc] at hu
            obtain ⟨rfl, hnext⟩ := busy_of_turnStep hok.1 hown hu
            simp only [Phases.move, Function.update_self]
            exact hnext
          · cases hturn : turn log with
            | none => rfl
            | some u =>
                obtain ⟨hsets, hadd⟩ := (hown u hturn).2.setsCounter hok.1
                cases a with
                | fetchAdd => exact absurd rfl hadd
                | fetchSub _ | store _ => cases hop
                | _ => exact hsets.elim

/-! ### What a send does -/

/-- The counter as `check_overrun` finds it. -/
def checked : (Σ a : Action, a.Res) → Option (BitVec 32)
  | ⟨.fetchAdd, pending⟩ => some pending
  | _ => none

/-- The frame transmitted. -/
def transmitted : (Σ a : Action, a.Res) → Option (Fn × CanFrame)
  | ⟨.transmit fn frame, _⟩ => some (fn, frame)
  | _ => none

/-- What thread `t` performs. -/
def performedBy (t : ℕ) : Label m.system → Option (Σ a : Action, a.Res)
  | .act u a r => if u = t then some ⟨a, r⟩ else none
  | _ => none

theorem performs_performedBy {tr : CmdTrace} (h : Performs (S := m.system) t tr log) :
    log.filterMap (performedBy t) = tr := by
  rw [h.filterMap (f := performedBy t) fun l hl => ?_]
  · rw [acts, List.filterMap_map]
    exact (List.filterMap_congr fun x _ => if_pos rfl).trans List.filterMap_some
  · cases l with
    | act u a r => exact if_neg fun hu => hl (congrArg some hu)
    | _ => rfl

/-- What a control command did between its call and its return: it looked at the counter once;
refused, it transmitted the stop frame alone and returned `ERR_OVERRUN`; admitted, it transmitted
its own frame alone and returned what the transport answered. -/
def Decided (m : Motor) (fn : Fn) (tr : CmdTrace) : Prop :=
  ∃ pending r, tr.filterMap checked = [pending] ∧ ⟨.leave fn (.result r), ()⟩ ∈ tr ∧
    if m.overrunLimit.slt pending = true then
      r = .errOverrun ∧
        tr.filterMap transmitted = [(.stop, m.protocol.encodeStop m.motorId m.hostId)]
    else ∃ frame, tr.filterMap transmitted = [(fn, frame)] ∧ ⟨.transmit fn frame, r⟩ ∈ tr

/-- The transport is not connected. -/
def disconnected : Label m.system → Bool
  | .act _ .isConnected b => !b
  | _ => false

/-- No call finds the transport disconnected. -/
def Connected (_ : State) (l : Label m.system) : Prop := disconnected l = false

/-- A request on a connected transport transmits its frame. -/
theorem Requests.of_connected {fn : Fn} {frame : CanFrame} {expected : FrameType} {tr : CmdTrace}
    {r : Result} (h : Requests fn frame expected tr r) (hconnected : ⟨.isConnected, false⟩ ∉ tr) :
    tr.filterMap checked = [] ∧ tr.filterMap transmitted = [(fn, frame)] := by
  cases h with
  | refused => simp at hconnected
  | unsent => exact ⟨rfl, rfl⟩
  | waited htr hcheck => cases htr <;> cases hcheck <;> exact ⟨rfl, rfl⟩

theorem Sends.decided {fn : Fn} {frame : Option CanFrame} {tr : CmdTrace} {r : Result}
    (h : Sends m fn frame tr r) (hconnected : ⟨.isConnected, false⟩ ∉ tr) :
    Decided m fn (⟨.enter fn, ()⟩ :: tr ++ [⟨.leave fn (.result r), ()⟩]) := by
  cases h with
  | unconnected => simp at hconnected
  | @admitted pending hpending out hframe sent =>
      refine ⟨pending, r, rfl, by simp, ?_⟩
      rw [if_neg (by simp [hpending])]
      exact ⟨out, rfl, by simp⟩
  | @refused pending hpending tr stopped hstop =>
      obtain ⟨hchecked, htransmitted⟩ := hstop.of_connected fun hmem => hconnected (by simp [hmem])
      have hsplit : (⟨.enter fn, ()⟩ :: ([⟨.isConnected, true⟩, ⟨.fetchAdd, pending⟩,
            ⟨.store m.overrunLimit, ()⟩, ⟨.enter .stop, ()⟩] ++ tr ++
              [⟨.leave .stop (.result stopped), ()⟩]) ++ [⟨.leave fn (.result .errOverrun), ()⟩] :
                CmdTrace) =
          [⟨.enter fn, ()⟩, ⟨.isConnected, true⟩, ⟨.fetchAdd, pending⟩,
            ⟨.store m.overrunLimit, ()⟩, ⟨.enter .stop, ()⟩] ++ tr ++
              [⟨.leave .stop (.result stopped), ()⟩, ⟨.leave fn (.result .errOverrun), ()⟩] := by
        simp
      rw [hsplit]
      refine ⟨pending, .errOverrun, ?_, by simp, ?_⟩
      · rw [List.filterMap_append, List.filterMap_append, hchecked]
        rfl
      · rw [if_pos hpending, List.filterMap_append, List.filterMap_append, htransmitted]
        exact ⟨rfl, rfl⟩

/-- A control command that has returned. -/
theorem decided_of_returned {k : Config m.system} {before since : List (Label m.system)} {op : Op}
    {fn : Fn} (h : Path Connected m.initial (before ++ .call t op :: since) k)
    (hop : op.fn = some fn) (hfn : fn.isSend = true) (hcalls : ∀ op', .call t op' ∉ since)
    (hreturned : k.threads t = .ret ()) : Decided m fn (since.filterMap (performedBy t)) := by
  obtain ⟨tr, htr, hafter⟩ := h.called hcalls
  rw [hreturned] at hafter
  rw [performs_performedBy htr]
  obtain ⟨frame, tr', r, rfl, hsends⟩ := body_send_trace hop hfn hafter
  refine hsends.decided fun hmem => ?_
  have hl := htr.mem_log (a := .isConnected) (r := false) (by simp [hmem])
  have hanswer := h.forall (P := fun l => disconnected l = false) (fun _ _ hC => hC) _
    (List.mem_append_right _ (List.mem_cons_of_mem _ hl))
  cases hanswer

/-! ### The refinement -/

/-- The overrun check behaves as the saturating counter in the run with this log. -/
structure Refines (log : List (Label m.system)) (k : Config m.system) : Prop where
  counter : turn log = none → k.state.pending = count log
  /-- A command is refused exactly at the limit. -/
  refuses : ∀ before t pending after, log = before ++ .act t Action.fetchAdd pending :: after →
    (m.overrunLimit.slt pending = true ↔ count before = m.overrunLimit.toNat)
  sends : ∀ before t op fn since, op.fn = some fn → fn.isSend = true →
    log = before ++ .call t op :: since → (∀ op', .call t op' ∉ since) → k.threads t = .ret () →
      Decided m fn (since.filterMap (performedBy t))

theorem refines_of_lt (hL : m.overrunLimit.toNat < 2 ^ 31 - 1) {k : Config m.system}
    (h : Path Connected m.initial log k) (hseq : Sequential log) : Refines log k where
  counter hturn := by
    obtain ⟨φ, hsaturated⟩ := path_saturated hL h hseq
    exact hsaturated.counter hturn
  refuses before t pending after hlog := by
    subst hlog
    obtain ⟨c₁, c₂, h₁, hstep, -, -⟩ := h.cut
    have hnone := hseq before _ after rfl rfl
    obtain ⟨φ, hsaturated⟩ := path_saturated hL h₁ hseq.left
    cases hstep with
    | act ch ht hs =>
        obtain ⟨rfl, -⟩ := Prod.mk.inj (Option.some.inj hs)
        exact (hsaturated.overruns_iff hL hnone).2
  sends before t op fn since hop hfn hlog hcalls hreturned := by
    subst hlog
    exact decided_of_returned h hop hfn hcalls hreturned

/-! ### Large limits -/

/-- The control command of the runs below. -/
def torqueOp : Op := .sendCurrentControl ⟨0, .fin 0⟩

/-- It is called, and comes to its check. -/
def called : List (Label m.system) := [.call 0 torqueOp,
  .act 0 (Action.enter .sendCurrentControl) (), .act 0 Action.isConnected true]

/-- It counts itself, and reads the counter so. -/
def checkTrace (pending : BitVec 32) : CmdTrace :=
  [⟨.enter .sendCurrentControl, ()⟩, ⟨.isConnected, true⟩, ⟨.fetchAdd, pending⟩]

/-- It is admitted, transmits its frame and returns. -/
def admittedTrace (m : Motor) : CmdTrace :=
  [⟨.transmit .sendCurrentControl (m.protocol.encodeWriteParam m.motorId m.hostId ParamId.iqRef.id
    (rsHwFloatToRaw ⟨0, .fin 0⟩)), .success⟩, ⟨.leave .sendCurrentControl (.result .success), ()⟩]

theorem solo_check (m : Motor) (s : State) : ∃ q s', Solo (S := m.system) 0 (m.body torqueOp) s
    (checkTrace (s.vars.unacknowledgedCommands + 1)) q s' ∧ True := by
  refine Solo.exists_cons Choice.go rfl ?_
  refine Solo.exists_cons (Choice.connected true) rfl ?_
  refine Solo.exists_cons Choice.go rfl ?_
  exact ⟨_, _, .nil _ _, trivial⟩

theorem solo_admitted {s : State}
    (h : m.overrunLimit.slt (s.vars.unacknowledgedCommands + 1) = false) :
    ∃ q s', Solo (S := m.system) 0 (m.body torqueOp) s
      (checkTrace (s.vars.unacknowledgedCommands + 1) ++ admittedTrace m) q s' ∧ q = .ret () ∧
        s'.vars.unacknowledgedCommands = s.vars.unacknowledgedCommands + 1 := by
  refine Solo.exists_cons Choice.go rfl ?_
  refine Solo.exists_cons (Choice.connected true) rfl ?_
  refine Solo.exists_cons Choice.go rfl ?_
  dsimp only [Prog.bind]
  rw [if_neg (Bool.eq_false_iff.mp h)]
  refine Solo.exists_cons (Choice.transmitted .success) rfl ?_
  refine Solo.exists_cons Choice.go rfl ?_
  exact ⟨_, _, .nil _ _, rfl, rfl⟩

/-- `n` commands were sent, one after another. -/
structure AfterSends (n : ℕ) (log : List (Label m.system)) (k : Config m.system) : Prop where
  path : Path Connected m.initial log k
  sequential : Sequential log
  nobody : turn log = none
  counted : count log = n
  counter : k.state.vars.unacknowledgedCommands = BitVec.ofNat 32 n
  idle : k.threads 0 = .ret ()

namespace AfterSends

variable {n : ℕ} {k : Config m.system}

theorem initial (m : Motor) : AfterSends (m := m) 0 [] m.initial where
  path := .nil
  sequential := fun before l after heq => absurd heq (by simp)
  nobody := rfl
  counted := rfl
  counter := rfl
  idle := rfl

/-- The next command, called alone. -/
theorem solo (h : AfterSends n log k) {tr : CmdTrace} {q : Cmd Unit} {s' : State}
    (hsolo : Solo (S := m.system) 0 (m.body torqueOp) k.state tr q s')
    (hconnected : ∀ x ∈ tr, disconnected (Label.act (S := m.system) 0 x.1 x.2) = false) :
    ∃ k', Path Connected m.initial (log ++ .call 0 torqueOp :: acts 0 tr) k' ∧ k'.state = s' ∧
      k'.threads 0 = q := by
  have hcall : Step k (.call 0 torqueOp)
      ⟨k.state, Function.update k.threads 0 (m.body torqueOp)⟩ := .call h.idle rfl
  have hpath := hsolo.path (C := Connected) (fun x hx _ => hconnected x hx)
    (Function.update k.threads 0 (m.body torqueOp)) (Function.update_self ..)
  refine ⟨⟨s', Function.update (Function.update k.threads 0 (m.body torqueOp)) 0 q⟩, ?_, rfl, ?_⟩
  · rw [List.append_cons]
    exact (h.path.snoc hcall rfl).append hpath
  · simp only [Function.update_self]

theorem called_same (log : List (Label m.system)) :
    turn (log ++ called) = turn log ∧ count (log ++ called) = count log := by
  rw [turn, List.foldl_append, count, List.filterMap_append, List.foldl_append]
  exact ⟨rfl, rfl⟩

/-- The check of the next command. -/
theorem check (h : AfterSends n log k) :
    Sequential ((log ++ called) ++ [.act 0 Action.fetchAdd (BitVec.ofNat 32 n + 1)]) ∧
      ∃ k', Path Connected m.initial
        ((log ++ called) ++ [.act 0 Action.fetchAdd (BitVec.ofNat 32 n + 1)]) k' := by
  constructor
  · refine (h.sequential.quiet ?_).snoc fun _ => (called_same log).1.trans h.nobody
    intro l hl
    simp only [called, List.mem_cons, List.not_mem_nil, or_false] at hl
    rcases hl with rfl | rfl | rfl <;> rfl
  · obtain ⟨q, s', hsolo, -⟩ := solo_check m k.state
    obtain ⟨k', hpath, -, -⟩ := h.solo hsolo (by simp [checkTrace, disconnected])
    rw [h.counter] at hpath
    have hlog : (log ++ called) ++ [.act 0 Action.fetchAdd (BitVec.ofNat 32 n + 1)] =
        log ++ .call 0 torqueOp ::
          acts (S := m.system) 0 (checkTrace (BitVec.ofNat 32 n + 1)) := by
      rw [List.append_assoc]
      rfl
    exact ⟨k', hlog ▸ hpath⟩

/-- The next command is admitted. -/
theorem succ (h : AfterSends n log k) (hn : n < m.overrunLimit.toNat)
    (hL : m.overrunLimit.toNat < 2 ^ 31) :
    ∃ log' k', AfterSends (m := m) (n + 1) log' k' := by
  have hpending : (BitVec.ofNat 32 n + 1) = BitVec.ofNat 32 (n + 1) := (BitVec.ofNat_add ..).symm
  have hpass : m.overrunLimit.slt (BitVec.ofNat 32 n + 1) = false := by
    have hsum : (BitVec.ofNat 32 (n + 1)).toInt = n + 1 := by
      rw [BitVec.toInt_eq_toNat_of_lt (by rw [BitVec.toNat_ofNat]; omega), BitVec.toNat_ofNat,
        Nat.mod_eq_of_lt (by omega)]
      push_cast
      ring
    have hlimit : m.overrunLimit.toInt = m.overrunLimit.toNat :=
      BitVec.toInt_eq_toNat_of_lt (by omega)
    refine Bool.eq_false_iff.mpr fun hover => ?_
    have hlt := BitVec.slt_iff_toInt_lt.mp hover
    rw [hpending, hsum, hlimit] at hlt
    omega
  have hover := hpass
  obtain ⟨hsequential, -⟩ := h.check
  rw [← h.counter] at hpass
  obtain ⟨_, s', hsolo, rfl, hcounter⟩ := solo_admitted hpass
  obtain ⟨k', hpath, hstate, hidle⟩ := h.solo hsolo
    (by simp [checkTrace, admittedTrace, disconnected])
  rw [h.counter] at hpath hcounter
  have hlog : log ++ .call 0 torqueOp ::
        acts (S := m.system) 0 (checkTrace (BitVec.ofNat 32 n + 1) ++ admittedTrace m) =
      ((log ++ called) ++ [.act 0 Action.fetchAdd (BitVec.ofNat 32 n + 1)]) ++
        acts 0 (admittedTrace m) := by
    simp [called, acts, checkTrace]
  rw [hlog] at hpath
  obtain ⟨hturn, hcount⟩ := called_same log
  refine ⟨_, k', hpath, hsequential.quiet ?_, ?_, ?_, ?_, hidle⟩
  · intro l hl
    simp only [admittedTrace, acts, List.map_cons, List.map_nil, List.mem_cons, List.not_mem_nil,
      or_false] at hl
    rcases hl with rfl | rfl <;> rfl
  · rw [turn, List.foldl_append, ← turn, turn_snoc]
    exact if_neg (Bool.eq_false_iff.mp hover)
  · rw [count, List.filterMap_append, List.foldl_append, ← count, count_snoc, hcount, h.counted]
    exact if_pos hn
  · rw [hstate, hcounter, hpending]

end AfterSends

/-- As many commands as the limit allows. -/
theorem exists_afterSends (hL : m.overrunLimit.toNat < 2 ^ 31) {n : ℕ}
    (hn : n ≤ m.overrunLimit.toNat) : ∃ log k, AfterSends (m := m) n log k := by
  induction n with
  | zero => exact ⟨[], m.initial, .initial m⟩
  | succ n ih =>
      obtain ⟨log, k, h⟩ := ih (Nat.le_of_succ_le hn)
      exact h.succ hn hL

/-- A check that refuses below the limit, or admits at it. -/
theorem AfterSends.not_refines {n : ℕ} {k : Config m.system} (h : AfterSends n log k)
    (hwrong : ¬ (m.overrunLimit.slt (BitVec.ofNat 32 n + 1) = true ↔ n = m.overrunLimit.toNat)) :
    ∃ (log : List (Label m.system)) (k : Config m.system),
      Path Connected m.initial log k ∧ Sequential log ∧ ¬ Refines log k := by
  obtain ⟨hsequential, k', hpath⟩ := h.check
  refine ⟨_, k', hpath, hsequential, fun hrefines => hwrong ?_⟩
  have hchecked := hrefines.refuses (log ++ called) 0 (BitVec.ofNat 32 n + 1) [] rfl
  rwa [(called_same log).2, h.counted] at hchecked

/-- From 2^31 on, the limit is negative as an `int`: the first command is refused. -/
theorem large_refuses (hL : 2 ^ 31 ≤ m.overrunLimit.toNat) :
    ∃ (log : List (Label m.system)) (k : Config m.system),
      Path Connected m.initial log k ∧ Sequential log ∧ ¬ Refines log k := by
  refine (AfterSends.initial m).not_refines fun hchecked => ?_
  have hnegative : m.overrunLimit.toInt < 0 := by
    rw [BitVec.toInt_neg_iff]
    omega
  have hzero := hchecked.mp
    (BitVec.slt_iff_toInt_lt.mpr (by simpa using hnegative.trans_le (by decide)))
  omega

/-- **The overrun check is the saturating counter** in every sequential run on a connected
transport, exactly if the limit is below the largest integer. -/
theorem refines_iff (m : Motor) :
    (∀ (log : List (Label m.system)) (k : Config m.system), Path Connected m.initial log k →
      Sequential log → Refines log k) ↔ m.overrunLimit.toNat < 2 ^ 31 - 1 := by
  constructor
  · intro h
    -- One more command after as many as the limit allows: the check goes wrong there.
    by_contra hL
    obtain ⟨log, k, hpath, hsequential, hnot⟩ : ∃ (log : List (Label m.system))
        (k : Config m.system), Path Connected m.initial log k ∧ Sequential log ∧
          ¬ Refines log k := by
      by_cases hlarge : 2 ^ 31 ≤ m.overrunLimit.toNat
      · exact large_refuses hlarge
      · -- The counter is at the largest integer, and wraps.
        have hlimit : m.overrunLimit.toNat = 2147483647 := by omega
        have hvalue : m.overrunLimit = BitVec.ofNat 32 2147483647 :=
          BitVec.eq_of_toNat_eq (by rw [hlimit]; rfl)
        obtain ⟨log, k, hsends⟩ := exists_afterSends (m := m) (by omega) le_rfl
        refine hsends.not_refines fun hchecked => ?_
        have hover := hchecked.mpr rfl
        rw [hlimit, hvalue] at hover
        exact absurd hover (by decide)
    exact hnot (h log k hpath hsequential)
  · intro hL log k hpath hsequential
    exact refines_of_lt hL hpath hsequential

end

/-- **With a limit of 2^31**, the first command of a run is refused. -/
theorem first_send_refused :
    ∃ (log : List (Label ({ Motor.sample .priv with overrunLimit := 0x80000000 } : Motor).system))
      (k : Config ({ Motor.sample .priv with overrunLimit := 0x80000000 } : Motor).system),
      Path Connected ({ Motor.sample .priv with overrunLimit := 0x80000000 } : Motor).initial log k ∧
        Sequential log ∧ ¬ Refines log k :=
  large_refuses (by decide)

end Robstride
