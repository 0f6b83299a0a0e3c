import Robstride.Motor.Overrun
import Robstride.Motor.Phases

/-!
# Motor — Counting

How far `unacknowledged_commands_` can be trusted while threads send and the receive thread counts
down.  The counter goes below zero by one at most, and only until it is reset (`Settled`).

No control command that was counted should be forgotten: the counter is at least the number of
commands admitted minus the number of frames parsed.  So it is in every run in which no command is
counted while the counter, not negative, is about to be reset, nor at the largest integer
(`admitted_sub_parsed_le`).  Two commands counted between the two steps of the reset are enough to
lose one (`reset_loses_send`).
-/

namespace Robstride

open Support Support.Pool

/-! ### Between the steps of a reset -/

/-- The counter is not below zero, but by one while it is to be reset, and no thread has found it
over the limit. -/
structure Settled (s : State) (φ : ℕ → Phase) : Prop where
  linked : Linked s φ
  admitted : ∀ t, φ t ≠ .exceeded
  floor : -1 ≤ s.pending
  nonneg : s.clearing = false → 0 ≤ s.pending

/-- The action changes the counter. -/
def Action.SetsCounter : Action → Prop
  | .fetchAdd | .fetchSub _ | .store _ => True
  | _ => False

section

variable {m : Motor} {t : ℕ} {s s' : State} {φ : ℕ → Phase} {a : Action} {ch : Choice} {r : a.Res}

theorem perform_counter (ha : ¬ a.SetsCounter) (h : m.perform t a ch s = some (r, s')) :
    s'.vars.unacknowledgedCommands = s.vars.unacknowledgedCommands ∧ s'.clearing = s.clearing := by
  cases perform_effect h with
  | fetchAdd | fetchSub _ | store _ => exact absurd trivial ha
  | leave fn value =>
      simp only [State.close]
      split_ifs <;> exact ⟨rfl, rfl⟩
  | other hsame => exact ⟨hsame.counter, hsame.clearing⟩
  | _ => exact ⟨rfl, rfl⟩

/-- Only a count over the limit leaves a thread to set the counter back. -/
theorem next_ne_exceeded (hφ : φ t ≠ .exceeded)
    (hadd : a = .fetchAdd → m.overrunLimit.slt (s.vars.unacknowledgedCommands + 1) = false)
    (h : m.perform t a ch s = some (r, s')) : Phase.next m (φ t) a r ≠ .exceeded := by
  cases a with
  | fetchAdd =>
      obtain ⟨rfl, -⟩ := Prod.mk.inj (Option.some.inj h)
      simp only [Phase.next, hadd rfl, Bool.false_eq_true, if_false]
      intro heq
      cases heq
  | store value =>
      cases hcase : φ t with
      | exceeded => exact absurd hcase hφ
      | _ =>
          intro heq
          cases heq
  | startWait _ | parse _ | fetchSub _ =>
      simp only [Phase.next]
      intro heq
      split_ifs at heq
  | lockMotor | wake | unlockMotor =>
      intro heq
      cases heq
  | _ => exact hφ

/-- A thread that follows the phases sets the counter only to reset it. -/
theorem Settled.store {value : BitVec 32} (h : Settled s φ)
    (hok : Phase.Allows m (φ t) (.store value)) :
    φ t = .clearing ∧ value = 0 ∧ s.clearing = true := by
  rcases Phase.of_store hok with ⟨hφ, -⟩ | ⟨hφ, rfl⟩
  · exact absurd hφ (h.admitted t)
  · exact ⟨hφ, rfl, h.linked.clearing.mpr ⟨t, hφ⟩⟩

/-- A thread that follows the phases counts down only while the counter is not to be reset. -/
theorem Settled.fetchSub {reply : Reply} (h : Settled s φ)
    (hok : Phase.Allows m (φ t) (.fetchSub reply)) :
    φ t = .parsed ∧ s.clearing = false ∧
      (s.vars.unacknowledgedCommands - 1).toInt = s.pending - 1 := by
  have hφ := Phase.of_fetchSub hok
  have hclearing := h.linked.counts_down hφ
  have hnonneg : 0 ≤ s.vars.unacknowledgedCommands.toInt := h.nonneg hclearing
  have hlt : s.vars.unacknowledgedCommands.toInt < 2147483648 := BitVec.toInt_lt
  refine ⟨hφ, hclearing, ?_⟩
  rw [BitVec.toInt_sub, State.pending]
  exact Int.bmod_eq_of_le (by simp; omega) (by simp; omega)

/-- What a step makes of the counter and its reset. -/
inductive Counted (s s' : State) : Action → Prop where
  | up (hpending : s'.pending = s.pending + 1) (hclearing : s'.clearing = s.clearing) :
      Counted s s' .fetchAdd
  | down (reply : Reply) (hnot : s.clearing = false) (hpending : s'.pending = s.pending - 1)
      (hclearing : s'.clearing = true ↔ s.pending ≤ 0) : Counted s s' (.fetchSub reply)
  | reset (hdue : s.clearing = true) (hpending : s'.pending = 0)
      (hclearing : s'.clearing = false) : Counted s s' (.store 0)
  | same {a : Action} (ha : ¬ a.SetsCounter) (hpending : s'.pending = s.pending)
      (hclearing : s'.clearing = s.clearing) : Counted s s' a

/-- The thread follows the phases, and does not count at the largest integer. -/
theorem Settled.counted (hs : Settled s φ) (hok : Phase.Allows m (φ t) a)
    (hmax : a = .fetchAdd → s.vars.unacknowledgedCommands ≠ BitVec.intMax 32)
    (h : m.perform t a ch s = some (r, s')) : Counted s s' a := by
  by_cases ha : a.SetsCounter
  · cases a with
    | fetchAdd =>
        have hpending := toInt_add_one (hmax rfl)
        obtain ⟨-, rfl⟩ := Prod.mk.inj (Option.some.inj h)
        exact .up hpending rfl
    | fetchSub reply =>
        obtain ⟨-, hclearing, hpending⟩ := hs.fetchSub hok
        obtain ⟨-, rfl⟩ := Prod.mk.inj (Option.some.inj h)
        exact .down reply hclearing hpending BitVec.sle_iff_toInt_le
    | store value =>
        obtain ⟨hφ, rfl, hclearing⟩ := hs.store hok
        have hheld : s.motorMutex = some t := (hs.linked.mutex t).mpr (by rw [hφ]; trivial)
        obtain ⟨-, rfl⟩ := Prod.mk.inj (Option.some.inj h)
        exact .reset hclearing rfl (by simp [hheld])
    | _ => exact ha.elim
  · obtain ⟨hcounter, hclearing⟩ := perform_counter ha h
    exact .same ha (congrArg BitVec.toInt hcounter) hclearing

/-- **Every step** keeps the counter settled, as long as no command is counted over the limit or at
the largest integer. -/
theorem Settled.step (hs : Settled s φ) (hok : Phase.Allows m (φ t) a)
    (hadd : a = .fetchAdd → s.vars.unacknowledgedCommands ≠ BitVec.intMax 32 ∧
      m.overrunLimit.slt (s.vars.unacknowledgedCommands + 1) = false)
    (h : m.perform t a ch s = some (r, s')) :
    Settled s' (Function.update φ t (Phase.next m (φ t) a r)) := by
  have hfloor := hs.floor
  have hnonneg := hs.nonneg
  have hcounter : -1 ≤ s'.pending ∧ (s'.clearing = false → 0 ≤ s'.pending) := by
    cases hs.counted hok (fun ha => (hadd ha).1) h with
    | up hpending hclearing =>
        rw [hpending, hclearing]
        exact ⟨by omega, fun hc => by have hle := hnonneg hc; omega⟩
    | down reply hnot hpending hclearing =>
        have hle := hnonneg hnot
        rw [hpending]
        refine ⟨by omega, fun hc => ?_⟩
        have hpos : ¬ s.pending ≤ 0 := fun hle => by
          rw [hclearing.mpr hle] at hc
          cases hc
        omega
    | reset hdue hpending hclearing =>
        rw [hpending]
        exact ⟨by omega, fun _ => le_rfl⟩
    | same ha hpending hclearing =>
        rw [hpending, hclearing]
        exact ⟨hfloor, hnonneg⟩
  refine ⟨hs.linked.step hok h, fun u => ?_, hcounter.1, hcounter.2⟩
  rcases eq_or_ne u t with rfl | hu
  · rw [Function.update_self]
    exact next_ne_exceeded (hs.admitted u) (fun ha => (hadd ha).2) h
  · rw [Function.update_of_ne hu]
    exact hs.admitted u

theorem Settled.initial (m : Motor) : Settled m.initialState fun _ => .free where
  linked := .initial m
  admitted _ := nofun
  floor := show (-1 : ℤ) ≤ 0 by decide
  nonneg _ := le_rfl

/-- A call or a move of the environment does not touch the counter. -/
theorem Settled.call {op : Op} (hs : Settled s φ) (h : s.call op = some s') : Settled s' φ := by
  have hlinked := hs.linked.call h
  obtain ⟨replies, rfl⟩ := call_effect h
  exact ⟨hlinked, hs.admitted, hs.floor, hs.nonneg⟩

theorem Settled.env {e : BusEvent} (hs : Settled s φ) (h : s.env e = some s') : Settled s' φ := by
  have hlinked := hs.linked.env h
  rcases env_effect h with ⟨arrived, received, replies, rfl⟩ | ⟨i, -, rfl⟩ <;>
    exact ⟨hlinked, hs.admitted, hs.floor, hs.nonneg⟩

end

/-! ### Admitted and parsed -/

section

variable {m : Motor} {log : List (Label m.system)} {s s' : State} {φ : ℕ → Phase} {t : ℕ}
  {a : Action} {ch : Choice} {r : a.Res}

/-- `check_overrun` lets the command pass. -/
def admits : Label m.system → Bool
  | .act _ .fetchAdd pending => !m.overrunLimit.slt pending
  | _ => false

/-- `process_frame` parses a frame. -/
def parsesFrame : Label m.system → Bool
  | .act _ (.parse _) accepted => accepted
  | _ => false

/-- `process_frame` takes one off the counter. -/
def countsDown : Label m.system → Bool
  | .act _ (.fetchSub _) _ => true
  | _ => false

theorem countP_snoc {α : Type} (p : α → Bool) (xs : List α) (x : α) :
    (xs ++ [x]).countP p = xs.countP p + (p x).toNat := by
  rw [List.countP_append, List.countP_singleton]
  cases p x <;> rfl

/-- What the counter says of the commands admitted and the frames parsed: it has only been raised
by the one and lowered by the other, and each frame is counted after it was parsed. -/
structure Ledger (log : List (Label m.system)) (s : State) (φ : ℕ → Phase) : Prop where
  settled : Settled s φ
  admitted : (log.countP admits : ℤ) ≤ s.pending + log.countP countsDown
  cleared : s.clearing = true → s.pending ≤ 0
  parsed : log.countP countsDown ≤ log.countP parsesFrame
  owed : ∀ u, φ u = .parsed → log.countP countsDown < log.countP parsesFrame

/-- A thread has parsed a frame only just now, or has not counted it yet. -/
theorem next_eq_parsed {ψ : Phase} (h : Phase.next m ψ a r = .parsed) :
    parsesFrame (Label.act (S := m.system) t a r) = true ∨
      ψ = .parsed ∧ countsDown (Label.act (S := m.system) t a r) = false := by
  cases a with
  | parse reply =>
      simp only [Phase.next] at h
      split_ifs at h with haccepted
      exact Or.inl haccepted
  | fetchSub reply | startWait _ | fetchAdd =>
      simp only [Phase.next] at h
      split_ifs at h
  | store value => cases ψ <;> cases h
  | lockMotor | wake | unlockMotor => cases h
  | _ => exact Or.inr ⟨h, rfl⟩

/-- Who counts down has parsed a frame. -/
theorem parsed_of_countsDown (hok : Phase.Allows m (φ t) a)
    (h : countsDown (Label.act (S := m.system) t a r) = true) :
    φ t = .parsed ∧ parsesFrame (Label.act (S := m.system) t a r) = false := by
  cases a with
  | fetchSub reply => exact ⟨Phase.of_fetchSub hok, rfl⟩
  | _ => cases h

/-- `check_overrun` counts a command. -/
def counts : Label m.system → Bool
  | .act _ .fetchAdd _ => true
  | _ => false

/-- `check_overrun` finds the counter over the limit. -/
def overruns : Label m.system → Bool
  | .act _ .fetchAdd pending => m.overrunLimit.slt pending
  | _ => false

/-- The step does not find the counter over the limit. -/
def NoOverrun (_ : State) (l : Label m.system) : Prop := overruns l = false

instance (s : State) (l : Label m.system) : Decidable (NoOverrun s l) :=
  inferInstanceAs (Decidable (_ = false))

/-- A command is counted while the counter can tell it from the next reset: it is below zero or not
about to be reset, and not at the largest integer. -/
def CountedInTime (s : State) (l : Label m.system) : Prop :=
  counts l = true → (s.clearing = true → s.pending < 0) ∧
    s.vars.unacknowledgedCommands ≠ BitVec.intMax 32

instance (s : State) (l : Label m.system) : Decidable (CountedInTime s l) :=
  inferInstanceAs (Decidable (_ = true → _))

namespace Ledger

/-- The frames parsed, counted down or not, after one more step. -/
theorem parsed_step (hl : Ledger log s φ) (hok : Phase.Allows m (φ t) a) :
    (log ++ [Label.act (S := m.system) t a r]).countP countsDown ≤
        (log ++ [Label.act (S := m.system) t a r]).countP parsesFrame ∧
      ∀ u, Function.update φ t (Phase.next m (φ t) a r) u = .parsed →
        (log ++ [Label.act (S := m.system) t a r]).countP countsDown <
          (log ++ [Label.act (S := m.system) t a r]).countP parsesFrame := by
  have hparsed := hl.parsed
  simp only [countP_snoc]
  cases hdown : countsDown (Label.act (S := m.system) t a r) with
  | true =>
      obtain ⟨hφ, hparse⟩ := parsed_of_countsDown hok hdown
      have howed := hl.owed t hφ
      refine ⟨by rw [hparse]; exact Nat.succ_le_of_lt howed, fun u hu => ?_⟩
      -- Nobody else has parsed a frame under the mutex that the thread holds.
      rcases eq_or_ne u t with rfl | hne
      · rw [Function.update_self] at hu
        rcases next_eq_parsed (t := u) hu with hfresh | ⟨-, hkept⟩
        · rw [hparse] at hfresh
          cases hfresh
        · rw [hdown] at hkept
          cases hkept
      · rw [Function.update_of_ne hne] at hu
        exact absurd (hl.settled.linked.eq_of_holds (by rw [hφ]; trivial) (by rw [hu]; trivial)) hne
  | false =>
      refine ⟨hparsed.trans (Nat.le_add_right _ _), fun u hu => ?_⟩
      rcases eq_or_ne u t with rfl | hne
      · rw [Function.update_self] at hu
        rcases next_eq_parsed (t := u) hu with hfresh | ⟨hφ, -⟩
        · rw [hfresh]
          exact Nat.lt_succ_of_le hparsed
        · exact (hl.owed u hφ).trans_le (Nat.le_add_right _ _)
      · rw [Function.update_of_ne hne] at hu
        exact (hl.owed u hu).trans_le (Nat.le_add_right _ _)

/-- **Every step** keeps the ledger, as long as commands are counted in time. -/
theorem step (hl : Ledger log s φ) (hok : Phase.Allows m (φ t) a)
    (hover : NoOverrun s (Label.act (S := m.system) t a r))
    (htime : CountedInTime s (Label.act (S := m.system) t a r))
    (h : m.perform t a ch s = some (r, s')) :
    Ledger (log ++ [Label.act (S := m.system) t a r]) s'
      (Function.update φ t (Phase.next m (φ t) a r)) := by
  obtain ⟨hparsed, howed⟩ := hl.parsed_step (r := r) hok
  have hadd : a = .fetchAdd → s.vars.unacknowledgedCommands ≠ BitVec.intMax 32 ∧
      m.overrunLimit.slt (s.vars.unacknowledgedCommands + 1) = false := by
    rintro rfl
    obtain ⟨rfl, -⟩ := Prod.mk.inj (Option.some.inj h)
    exact ⟨(htime rfl).2, hover⟩
  have hadmitted := hl.admitted
  have hcleared := hl.cleared
  suffices hcounter : ((log ++ [Label.act (S := m.system) t a r]).countP admits : ℤ) ≤
      s'.pending + (log ++ [Label.act (S := m.system) t a r]).countP countsDown ∧
        (s'.clearing = true → s'.pending ≤ 0) from
    ⟨hl.settled.step hok hadd h, hcounter.1, hcounter.2, hparsed, howed⟩
  simp only [countP_snoc]
  cases hl.settled.counted hok (fun ha => (hadd ha).1) h with
  | up hpending hclearing =>
      have hadmits : admits (Label.act (S := m.system) t .fetchAdd r) = true := congrArg not hover
      rw [hpending, hclearing, hadmits]
      refine ⟨?_, fun hc => Int.add_one_le_of_lt ((htime rfl).1 hc)⟩
      simp only [countsDown, Bool.toNat_true, Bool.toNat_false]
      push_cast
      omega
  | down reply hnot hpending hclearing =>
      rw [hpending]
      refine ⟨?_, fun hc => by have hle := hclearing.mp hc; omega⟩
      simp only [admits, countsDown, Bool.toNat_true, Bool.toNat_false]
      push_cast
      omega
  | reset hdue hpending hclearing =>
      -- The counter is not positive: what it is set to is no less.
      have hle := hcleared hdue
      rw [hpending]
      refine ⟨?_, fun _ => le_rfl⟩
      simp only [admits, countsDown, Bool.toNat_false]
      omega
  | same ha hpending hclearing =>
      rw [hpending, hclearing]
      refine ⟨?_, hcleared⟩
      cases a with
      | fetchAdd | fetchSub reply | store value => exact absurd trivial ha
      | _ => simpa [admits, countsDown] using hadmitted

/-- A label that counts nothing. -/
theorem quiet (hl : Ledger log s φ) (hsettled : Settled s' φ) (hvars : s'.vars = s.vars)
    (hclearing : s'.clearing = s.clearing) {l : Label m.system} (hadmits : admits l = false)
    (hparses : parsesFrame l = false) (hdown : countsDown l = false) : Ledger (log ++ [l]) s' φ := by
  have hsame : ∀ p : Label m.system → Bool, p l = false →
      (log ++ [l]).countP p = log.countP p := fun p hp => by
    rw [countP_snoc, hp]
    rfl
  have hpending : s'.pending = s.pending := by rw [State.pending, State.pending, hvars]
  refine ⟨hsettled, ?_, ?_, ?_, ?_⟩
  · rw [hsame _ hadmits, hsame _ hdown, hpending]
    exact hl.admitted
  · rw [hclearing, hpending]
    exact hl.cleared
  · rw [hsame _ hdown, hsame _ hparses]
    exact hl.parsed
  · rw [hsame _ hdown, hsame _ hparses]
    exact hl.owed

end Ledger

/-- No command that was counted is forgotten: the counter is at least the number of commands
admitted minus the number of frames parsed. -/
def NothingForgotten (log : List (Label m.system)) (s : State) : Prop :=
  (log.countP admits : ℤ) - log.countP parsesFrame ≤ s.pending

/-- Setting the counter, as the next step may, does not lower it. -/
def NothingErased (k : Config m.system) : Prop :=
  ∀ t value k', Step k (.act t (Action.store value) ()) k' → k.state.pending ≤ k'.state.pending

/-- **No counted command is forgotten**, and none is erased by a reset, in every run in which
commands are counted in time. -/
theorem admitted_sub_parsed_le {k : Config m.system}
    (h : Path (fun s l => NoOverrun s l ∧ CountedInTime s l) m.initial log k) :
    NothingForgotten log k.state ∧ NothingErased k := by
  obtain ⟨φ, hfollows, hledger⟩ : ∃ φ, m.phases.Follows k φ ∧ Ledger log k.state φ := by
    refine Phases.path_induction (phases_kept m) (discipline_kept m) ?_ ?_ ?_ (initial_ok m)
      ⟨.initial m, le_rfl, nofun, le_rfl, fun _ => nofun⟩ h
    · intro ls s φ t a ch r s' _ _ hC hok hl h
      exact hl.step hok hC.1 hC.2 h
    · intro ls s φ t op s' hl h
      have hsettled := hl.settled.call h
      obtain ⟨replies, rfl⟩ := call_effect h
      exact hl.quiet hsettled rfl rfl rfl rfl rfl
    · intro ls s φ e s' hl h
      have hsettled := hl.settled.env h
      rcases env_effect h with ⟨arrived, received, replies, rfl⟩ | ⟨i, -, rfl⟩ <;>
        exact hl.quiet hsettled rfl rfl rfl rfl rfl
  constructor
  · have hadmitted := hledger.admitted
    have hparsed : (log.countP countsDown : ℤ) ≤ log.countP parsesFrame :=
      Int.ofNat_le.mpr hledger.parsed
    rw [NothingForgotten]
    omega
  · intro t value k' hstep
    cases hstep with
    | act ch ht hs =>
        have hobeys := hfollows t
        rw [ht] at hobeys
        obtain ⟨-, rfl, hclearing⟩ := hledger.settled.store hobeys.1
        obtain ⟨-, rfl⟩ := Prod.mk.inj (Option.some.inj hs)
        exact hledger.cleared hclearing

/-- A command is sent and answered, then another is sent. -/
def sentAnsweredSent : Schedule .priv :=
  [.call 0 (Op.sendCurrentControl ⟨0, .fin 0⟩)] ++ sending 0 ++
    [.env (BusEvent.deliver (some (sampleReply .feedback)))] ++
    taking 1 5 ⟨sampleReply .feedback, some 0⟩ ++
    [.call 0 (Op.sendCurrentControl ⟨0, .fin 0⟩)] ++ sending 0

theorem admitted_sub_parsed_le_answered : ∃ (log : List (Label (Motor.sample .priv).system))
    (k : Config (Motor.sample .priv).system),
    Path (fun s l => NoOverrun s l ∧ CountedInTime s l) (Motor.sample .priv).initial log k ∧
      log.countP admits = 2 ∧ k.Finished ∧ NothingForgotten log k.state ∧ NothingErased k := by
  have h : ((Motor.sample .priv).initial.log (fun s l => NoOverrun s l ∧ CountedInTime s l)
      sentAnsweredSent).map (fun p => (p.1.countP admits, finishedBy [0, 1] p.1 p.2)) =
        some (2, true) := by
    decide +kernel
  obtain ⟨⟨log, k⟩, hlog, hobserved⟩ := Option.map_eq_some_iff.mp h
  obtain ⟨hadmits, hfinished⟩ := Prod.mk.inj hobserved
  have hpath := log_path hlog
  exact ⟨log, k, hpath, hadmits, hpath.finished hfinished, admitted_sub_parsed_le hpath⟩

/-- While the receive thread has counted a frame and not yet reset the counter, two threads count a
command each; then all three go on to their ends. -/
def sendsInReset : Schedule .priv :=
  [.env (BusEvent.unsolicited (sampleReply .feedback))] ++
    taking 1 3 ⟨sampleReply .feedback, none⟩ ++
    [.call 0 (Op.sendCurrentControl ⟨0, .fin 0⟩)] ++ go 0 1 ++ up 0 ++ go 0 1 ++
    [.call 2 (Op.sendCurrentControl ⟨0, .fin 0⟩)] ++ go 2 1 ++ up 2 ++ go 2 1 ++
    go 1 3 ++ out 0 ++ go 0 1 ++ out 2 ++ go 2 1

/-- **A reset loses a command** that was counted between its two steps: all calls have returned, two
commands were admitted and one frame was parsed, and the counter is zero. -/
theorem reset_loses_send : ∃ (log : List (Label (Motor.sample .priv).system))
    (k : Config (Motor.sample .priv).system),
    Path NoOverrun (Motor.sample .priv).initial log k ∧ k.Finished ∧ k.state.pending = 0 ∧
      log.countP admits = 2 ∧ log.countP parsesFrame = 1 ∧ ¬ NothingForgotten log k.state := by
  have h : ((Motor.sample .priv).initial.log NoOverrun sendsInReset).map (fun p =>
      (p.1.countP admits, p.1.countP parsesFrame, p.2.state.pending,
        finishedBy [0, 1, 2] p.1 p.2)) = some (2, 1, 0, true) := by
    decide +kernel
  obtain ⟨⟨log, k⟩, hlog, hobserved⟩ := Option.map_eq_some_iff.mp h
  obtain ⟨hadmits, hparsed, hpending, hfinished⟩ : log.countP admits = 2 ∧
      log.countP parsesFrame = 1 ∧ k.state.pending = 0 ∧ finishedBy [0, 1, 2] log k = true := by
    simpa using hobserved
  have hpath := log_path hlog
  refine ⟨log, k, hpath, hpath.finished hfinished, hpending, hadmits, hparsed, ?_⟩
  rw [NothingForgotten, hadmits, hparsed, hpending]
  decide

end

end Robstride
