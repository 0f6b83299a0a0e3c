import Robstride.Motor.Counting
import Robstride.Motor.Waiting

/-!
# Motor — Unsent commands

`check_overrun` counts a command before its frame is transmitted.  A transmit that fails should
leave `unacknowledged_commands_` as it was before the call (`Restores`), and commands that are each
answered before the next should never overrun (`NeverOverruns`).  The count of a command whose
transmit failed is not taken back, and no frame will: the one holds of a call, and the other of a
run, as long as no transmit of a control command fails (`restores_iff`).  With a limit of one, a
single failed transmit is enough for the next command to be refused (`unsent_overruns`).
-/

namespace Robstride

open Support Support.Prog Support.Pool

/-! ### The counter in a log -/

section

variable {m : Motor} {log : List (Label m.system)} {t : ℕ} {s s' : State} {φ : ℕ → Phase}
  {a : Action} {ch : Choice} {r : a.Res}

/-- The counter after a step. -/
def counterStep (c : BitVec 32) : Label m.system → BitVec 32
  | .act _ .fetchAdd _ => c + 1
  | .act _ (.fetchSub _) _ => c - 1
  | .act _ (.store value) _ => value
  | _ => c

theorem counterStep_same {c : BitVec 32} {l : Label m.system}
    (hl : ∀ u a r, l = .act u a r → ¬ a.SetsCounter) : counterStep c l = c := by
  cases l with
  | call t op => rfl
  | env e => rfl
  | act t a r =>
      have ha := hl t a r rfl
      cases a with
      | fetchAdd | fetchSub _ | store _ => exact absurd trivial ha
      | _ => rfl

theorem step_counter {c c' : Config m.system} {l : Label m.system} (h : Step c l c') :
    c'.state.vars.unacknowledgedCommands = counterStep c.state.vars.unacknowledgedCommands l := by
  cases h with
  | call hidle hs =>
      rw [call_vars hs]
      rfl
  | env hs =>
      rw [env_vars hs]
      rfl
  | @act t a k r s ch ht hs =>
      by_cases ha : a.SetsCounter
      · cases a with
        | fetchAdd | fetchSub _ | store _ =>
            obtain ⟨-, rfl⟩ := Prod.mk.inj (Option.some.inj hs)
            rfl
        | _ => exact ha.elim
      · rw [counterStep_same fun u a' r' hl => by cases hl; exact ha]
        exact (perform_counter ha hs).1

theorem path_counter {C : State → Label m.system → Prop} {c c' : Config m.system}
    (h : Path C c log c') :
    c'.state.vars.unacknowledgedCommands =
      log.foldl counterStep c.state.vars.unacknowledgedCommands := by
  induction h with
  | nil => rfl
  | snoc _ hstep _ ih =>
      rw [List.foldl_append, ← ih, List.foldl_cons, List.foldl_nil, step_counter hstep]

/-- Where only one thread accesses the counter, its trace tells what becomes of it. -/
theorem performs_counter {tr : CmdTrace} (h : Performs (S := m.system) t tr log)
    (halone : ∀ u a r, .act u a r ∈ log → a.SetsCounter → u = t) (c : BitVec 32) :
    log.foldl counterStep c = (acts (S := m.system) t tr).foldl counterStep c := by
  rw [← h, List.foldl_filter]
  refine List.foldl_ext _ _ _ fun c l hl => ?_
  split_ifs with hthread
  · rfl
  · refine counterStep_same fun u a r hl' ha => hthread ?_
    subst hl'
    rw [halone u a r hl ha]
    exact beq_self_eq_true _

/-! ### A transmit that fails -/

/-- Thread `t` calls a control command, the transport answers the transmit of its frame with `r`,
and the call returns; no other thread accesses the counter meanwhile. -/
structure SendsAlone (c : Config m.system) (t : ℕ) (op : Op) (fn : Fn) (frame : CanFrame)
    (r : Result) (log : List (Label m.system)) (k : Config m.system) : Prop where
  send : op.fn = some fn ∧ fn.isSend = true
  path : Path Any c (.call t op :: log) k
  once : ∀ op', .call t op' ∉ log
  returned : k.threads t = .ret ()
  transmits : .act t (Action.transmit fn frame) r ∈ log
  alone : ∀ u a r', .act u a r' ∈ log → a.SetsCounter → u = t

/-- If the transmit failed, the counter is as it was. -/
def Restores (r : Result) (s s' : State) : Prop :=
  r ≠ .success → s'.vars.unacknowledgedCommands = s.vars.unacknowledgedCommands

/-- The command is counted, whatever the transport answers. -/
theorem SendsAlone.counter {c k : Config m.system} {op : Op} {fn : Fn} {frame : CanFrame}
    {r : Result} (h : SendsAlone c t op fn frame r log k) :
    k.state.vars.unacknowledgedCommands = c.state.vars.unacknowledgedCommands + 1 := by
  have hpath : Path Any c ([] ++ .call t op :: log) k := h.path
  obtain ⟨tr, htr, hafter⟩ := hpath.called h.once
  rw [h.returned] at hafter
  obtain ⟨out, tr', r', rfl, hsends⟩ := body_send_trace h.send.1 h.send.2 hafter
  have hmem := htr.mem h.transmits
  rw [path_counter h.path, List.foldl_cons, performs_counter htr h.alone]
  cases hsends with
  | unconnected => simp at hmem
  | admitted => rfl
  | @refused pending hpending tr stopped hstop =>
      have hstops : ⟨.transmit fn frame, r⟩ ∈ tr := by simpa using hmem
      obtain ⟨rfl, -⟩ := hstop.transmits hstops
      cases h.send.2

theorem SendsAlone.restored_iff {c k : Config m.system} {op : Op} {fn : Fn} {frame : CanFrame}
    {r : Result} (h : SendsAlone c t op fn frame r log k) :
    Restores r c.state k.state ↔ r = .success := by
  constructor
  · intro hrestores
    by_contra hr
    have hsame := hrestores hr
    rw [h.counter, BitVec.add_right_eq_self] at hsame
    cases hsame
  · intro hr hne
    exact absurd hr hne

/-! ### Commands answered one by one -/

/-- When a command is counted, every command transmitted before is answered, and none is on its way
to be transmitted. -/
def AnsweredBefore (s : State) (l : Label m.system) : Prop :=
  counts l = true → s.unanswered = [] ∧ s.reserved = []

instance (s : State) (l : Label m.system) : Decidable (AnsweredBefore s l) :=
  inferInstanceAs (Decidable (_ = true → _))

/-- The transmit of a control command fails. -/
def sendFails : Label m.system → Bool
  | .act _ (.transmit fn _) r => fn.isSend && r != .success
  | _ => false

/-- No transmit of a control command fails. -/
def SendsSucceed (_ : State) (l : Label m.system) : Prop := sendFails l = false

instance (s : State) (l : Label m.system) : Decidable (SendsSucceed s l) :=
  inferInstanceAs (Decidable (_ = false))

/-- The counter is no higher than the number of slots that commands hold. -/
structure Matched (log : List (Label m.system)) (s : State) (φ : ℕ → Phase) : Prop where
  settled : Settled s φ
  slots : s.pending ≤ s.slots
  passed : ∀ l ∈ log, overruns l = false ∧ sendFails l = false

/-- The action may change the slots. -/
def Action.SetsSlots : Action → Prop
  | .transmit _ _ | .fetchAdd | .fetchSub _ => True
  | _ => False

theorem perform_slots (ha : ¬ a.SetsSlots) (h : m.perform t a ch s = some (r, s')) :
    s'.slots = s.slots := by
  cases perform_effect h with
  | sent _ _ | unsent _ _ | fetchAdd | fetchSub _ => exact absurd trivial ha
  | leave fn value =>
      simp only [State.close]
      split_ifs <;> rfl
  | other hsame => rw [State.slots, State.slots, hsame.unanswered, hsame.reserved]
  | _ => rfl

/-- A command that was counted keeps its slot when its frame goes out; others have none. -/
theorem transmit_slots {fn : Fn} {frame : CanFrame} {r : Result}
    (hpre : m.pre s t (.transmit fn frame))
    (hsends : SendsSucceed s (Label.act (S := m.system) t (Action.transmit fn frame) r))
    (h : m.perform t (.transmit fn frame) ch s = some (r, s')) : s'.slots = s.slots := by
  rcases perform_transmit h with ⟨-, rfl⟩ | ⟨hr, rfl⟩
  · exact slots_sent frame hpre.1
  · have hfn : fn.isSend = false := by simpa [SendsSucceed, sendFails, hr] using hsends
    rw [State.slots, release_reserved hfn]
    rfl

namespace Matched

/-- A command that is counted while no slot is held passes the check. -/
theorem passes (h : Matched log s φ) (hL : 1 ≤ m.overrunLimit.toNat ∧ m.overrunLimit.toNat < 2 ^ 31)
    (hunanswered : s.unanswered = []) (hreserved : s.reserved = []) :
    s.vars.unacknowledgedCommands ≠ BitVec.intMax 32 ∧
      m.overrunLimit.slt (s.vars.unacknowledgedCommands + 1) = false := by
  have hslots := h.slots
  rw [State.slots, hunanswered, hreserved, State.pending] at hslots
  have hmax : s.vars.unacknowledgedCommands ≠ BitVec.intMax 32 := by
    intro heq
    rw [heq] at hslots
    exact absurd hslots (by decide)
  have hlimit : m.overrunLimit.toInt = m.overrunLimit.toNat :=
    BitVec.toInt_eq_toNat_of_lt (by omega)
  refine ⟨hmax, Bool.eq_false_iff.mpr fun hover => ?_⟩
  have hlt := BitVec.slt_iff_toInt_lt.mp hover
  rw [toInt_add_one hmax, hlimit] at hlt
  simp only [List.length_nil, Nat.add_zero, Nat.cast_zero] at hslots
  omega

/-- The slots that a step leaves hold the counter. -/
theorem slots_step (h : Matched log s φ) (hok : Phase.Allows m (φ t) a) (hpre : m.pre s t a)
    (hadd : a = .fetchAdd → s.vars.unacknowledgedCommands ≠ BitVec.intMax 32 ∧
      m.overrunLimit.slt (s.vars.unacknowledgedCommands + 1) = false)
    (hsends : SendsSucceed s (Label.act (S := m.system) t a r))
    (hs : m.perform t a ch s = some (r, s')) : s'.pending ≤ s'.slots := by
  have hslots := h.slots
  cases h.settled.counted hok (fun ha => (hadd ha).1) hs with
  | up hpending hclearing =>
      -- The command that is counted takes a slot.
      obtain ⟨-, rfl⟩ := Prod.mk.inj (Option.some.inj hs)
      rw [hpending, State.slots, State.withVars, if_neg (Bool.eq_false_iff.mp (hadd rfl).2),
        List.length_cons]
      rw [State.slots] at hslots
      push_cast at hslots ⊢
      omega
  | down reply hnot hpending hclearing =>
      -- The frame gives back one slot at most.
      obtain ⟨-, rfl⟩ := Prod.mk.inj (Option.some.inj hs)
      rw [hpending]
      simp only [State.slots, State.withVars] at hslots ⊢
      split
      next => omega
      next n hn =>
        have hlength := List.le_length_erase (a := n) (l := s.unanswered)
        omega
  | reset hdue hpending hclearing =>
      rw [hpending]
      exact Int.natCast_nonneg _
  | same ha hpending hclearing =>
      have hsame : s'.slots = s.slots := by
        by_cases hset : a.SetsSlots
        · cases a with
          | transmit fn frame => exact transmit_slots hpre hsends hs
          | fetchAdd | fetchSub _ => exact absurd trivial ha
          | _ => exact hset.elim
        · exact perform_slots hset hs
      rw [hpending, hsame]
      exact hslots

theorem step (h : Matched log s φ)
    (hL : 1 ≤ m.overrunLimit.toNat ∧ m.overrunLimit.toNat < 2 ^ 31) (hok : Phase.Allows m (φ t) a)
    (hpre : m.pre s t a) (hanswered : AnsweredBefore s (Label.act (S := m.system) t a r))
    (hsends : SendsSucceed s (Label.act (S := m.system) t a r))
    (hs : m.perform t a ch s = some (r, s')) :
    Matched (log ++ [Label.act (S := m.system) t a r]) s'
      (Function.update φ t (Phase.next m (φ t) a r)) := by
  have hadd : a = .fetchAdd → s.vars.unacknowledgedCommands ≠ BitVec.intMax 32 ∧
      m.overrunLimit.slt (s.vars.unacknowledgedCommands + 1) = false := by
    rintro rfl
    exact h.passes hL (hanswered rfl).1 (hanswered rfl).2
  refine ⟨h.settled.step hok hadd hs, h.slots_step hok hpre hadd hsends hs, fun l hl => ?_⟩
  rcases List.mem_append.mp hl with hl | hl
  · exact h.passed l hl
  · rw [List.mem_singleton.mp hl]
    refine ⟨?_, hsends⟩
    cases a with
    | fetchAdd =>
        obtain ⟨rfl, -⟩ := Prod.mk.inj (Option.some.inj hs)
        exact (hadd rfl).2
    | _ => rfl

/-- A label that is not of an action. -/
theorem quiet (h : Matched log s φ) (hsettled : Settled s' φ) (hvars : s'.vars = s.vars)
    (hslots : s'.slots = s.slots) {l : Label m.system}
    (hl : overruns l = false ∧ sendFails l = false) : Matched (log ++ [l]) s' φ := by
  refine ⟨hsettled, ?_, fun l' hl' => ?_⟩
  · rw [State.pending, hvars, hslots]
    exact h.slots
  · rcases List.mem_append.mp hl' with hl' | hl'
    · exact h.passed l' hl'
    · exact List.mem_singleton.mp hl' ▸ hl

end Matched

/-- No command is found over the limit in a run whose commands are answered one by one. -/
theorem answered_passed (hL : 1 ≤ m.overrunLimit.toNat ∧ m.overrunLimit.toNat < 2 ^ 31)
    {k : Config m.system}
    (h : Path (fun s l => AnsweredBefore s l ∧ SendsSucceed s l) m.initial log k) :
    ∀ l ∈ log, overruns l = false ∧ sendFails l = false := by
  have hinitial : Matched (m := m) [] m.initialState fun _ => .free :=
    ⟨.initial m, le_rfl, fun l hl => absurd hl List.not_mem_nil⟩
  obtain ⟨φ, -, hmatched⟩ : ∃ φ, m.phases.Follows k φ ∧ Matched log k.state φ := by
    refine Phases.path_induction (phases_kept m) (discipline_kept m) ?_ ?_ ?_ (initial_ok m)
      hinitial h
    · intro ls s φ t a ch r s' _ hpre hC hok hP hs
      exact hP.step hL hok hpre hC.1 hC.2 hs
    · intro ls s φ t op s' hP hs
      have hsettled := hP.settled.call hs
      obtain ⟨replies, rfl⟩ := call_effect hs
      exact hP.quiet hsettled rfl rfl ⟨rfl, rfl⟩
    · intro ls s φ e s' hP hs
      have hsettled := hP.settled.env hs
      rcases env_effect hs with ⟨arrived, received, replies, rfl⟩ | ⟨i, -, rfl⟩ <;>
        exact hP.quiet hsettled rfl rfl ⟨rfl, rfl⟩
  exact hmatched.passed

/-- The action returns `ERR_OVERRUN`, or begins the safety stop. -/
def Action.Refuses : Action → Prop
  | .enter fn => fn = .stop
  | .leave _ value => value = .result .errOverrun
  | _ => False

/-- No call of a control command returns `ERR_OVERRUN` or stops the motor. -/
def NeverOverruns (log : List (Label m.system)) : Prop :=
  ∀ before t op fn since after, op.fn = some fn → fn.isSend = true →
    log = (before ++ .call t op :: since) ++ after → (∀ op', .call t op' ∉ since) →
      ∀ a r, .act t a r ∈ since → ¬ a.Refuses

/-- What `check_overrun` and the transport answer thread `t` in such a run. -/
def Accepted (m : Motor) (t : ℕ) (a : Action) (r : a.Res) : Prop :=
  overruns (Label.act (S := m.system) t a r) = false ∧
    sendFails (Label.act (S := m.system) t a r) = false

theorem checkOverrun_accepted :
    m.checkOverrun.Under (Accepted m t) (fun a => ¬ a.Refuses) fun passed => passed = true := by
  refine Under.bind (Q := fun pending => m.overrunLimit.slt pending = false)
    ⟨id, fun pending hpending => hpending.1⟩ fun pending hpending => ?_
  rw [if_neg (Bool.eq_false_iff.mp hpending)]
  exact rfl

theorem recorded_accepted {fn : Fn} (hfn : fn.isSend = true) {body : Cmd Result}
    (h : body.Under (Accepted m t) (fun a => ¬ a.Refuses) fun r => r ≠ .errOverrun) :
    (recorded fn body).Under (Accepted m t) (fun a => ¬ a.Refuses) fun _ => True := by
  have henter : ¬ (Action.enter fn).Refuses := by
    rintro rfl
    cases hfn
  refine Under.bind (Q := fun _ => True) ⟨henter, fun _ _ => trivial⟩ fun _ _ =>
    h.bind fun r hr => Under.bind (Q := fun _ => True) ⟨?_, fun _ _ => trivial⟩
      fun _ _ => trivial
  intro hrefuses
  exact hr (Ret.result.inj hrefuses)

/-- A control command that passes the check and transmits its frame refuses nothing. -/
theorem send_accepted {fn : Fn} (hfn : fn.isSend = true) (frame : Option CanFrame) :
    (m.send fn frame).Under (Accepted m t) (fun a => ¬ a.Refuses) fun _ => True := by
  have hconnected : isConnected.Under (Accepted m t) (fun a => ¬ a.Refuses) fun _ => True :=
    ⟨id, fun _ _ => trivial⟩
  refine recorded_accepted hfn (hconnected.bind fun connected _ => ?_)
  split_ifs
  · refine checkOverrun_accepted.bind ?_
    rintro _ rfl
    cases frame with
    | none => exact ⟨id, fun r => r.elim⟩
    | some frame =>
        refine ⟨id, fun sent hsent => ?_⟩
        have hsuccess : sent = .success := by simpa [sendFails, hfn] using hsent.2
        rw [hsuccess]
        intro heq
        cases heq
  · intro heq
    cases heq

theorem body_accepted {op : Op} {fn : Fn} (hop : op.fn = some fn) (hfn : fn.isSend = true) :
    (m.body op).Under (Accepted m t) (fun a => ¬ a.Refuses) fun _ => True := by
  obtain ⟨frame, hbody⟩ := body_send m hop hfn
  rw [hbody]
  exact (send_accepted hfn frame).bind fun _ _ => trivial

theorem neverOverruns {k : Config m.system} {C : State → Label m.system → Prop}
    (h : Path C m.initial log k) (hpassed : ∀ l ∈ log, overruns l = false ∧ sendFails l = false) :
    NeverOverruns log := by
  intro before t op fn since after hop hfn hlog hcalls a r hmem
  subst hlog
  obtain ⟨c, hcall, -⟩ := h.split
  obtain ⟨tr, htr, hafter⟩ := hcall.called hcalls
  have hunder := body_accepted (m := m) (t := t) hop hfn
  refine (hunder.after hafter fun x hx => ?_).1 _ (htr.mem hmem)
  -- Each answer of the trace is one of the log.
  exact hpassed (.act t x.1 x.2) (List.mem_append_left _
    (List.mem_append_right _ (List.mem_cons_of_mem _ (htr.mem_log hx))))

/-- **A failed transmit is counted**: of a call alone, the counter is as before exactly where the
transmit did not fail; and where none fails, commands that are each answered before the next never
overrun. -/
theorem restores_iff (m : Motor) :
    (∀ (c : Config m.system) (t : ℕ) (op : Op) (fn : Fn) (frame : CanFrame) (r : Result)
      (log : List (Label m.system)) (k : Config m.system), SendsAlone c t op fn frame r log k →
        (Restores r c.state k.state ↔ r = .success)) ∧
    (1 ≤ m.overrunLimit.toNat → m.overrunLimit.toNat < 2 ^ 31 →
      ∀ (log : List (Label m.system)) (k : Config m.system),
        Path (fun s l => AnsweredBefore s l ∧ SendsSucceed s l) m.initial log k →
          NeverOverruns log) := by
  constructor
  · intro c t op fn frame r log k h
    exact h.restored_iff
  · intro hpos hlt log k h
    exact neverOverruns h (answered_passed ⟨hpos, hlt⟩ h)

/-- A control command that returns `ERR_OVERRUN`. -/
theorem not_neverOverruns {C : State → Label m.system → Prop} {fn : Fn} (hfn : fn.isSend = true)
    {k : Config m.system}
    (h : Path C m.initial (log ++ [.act t (Action.leave fn (.result .errOverrun)) ()]) k) :
    ¬ NeverOverruns (log ++ [.act t (Action.leave fn (.result .errOverrun)) ()]) := by
  obtain ⟨c, hlog, hleave, -⟩ := h.snoc_inv
  cases hleave with
  | act ch ht hs =>
      obtain ⟨before, op, since, tr, rfl, hsince, hafter⟩ := hlog.at_act ht
      intro hnever
      refine hnever before t op fn (since ++ [.act t (Action.leave fn (.result .errOverrun)) ()]) []
        (leave_send hfn hafter) hfn (by simp) (fun op' hmem => ?_)
          (Action.leave fn (.result .errOverrun)) () (by simp) rfl
      rcases List.mem_append.mp hmem with hmem | hmem
      · exact hsince.not_call op' hmem
      · cases List.mem_singleton.mp hmem

end

/-- A command whose transmit fails, and another. -/
def sendAfterUnsent : Schedule .priv :=
  [.call 0 (Op.sendCurrentControl ⟨0, .fin 0⟩)] ++ go 0 1 ++ up 0 ++ go 0 1 ++
    [.step 0 (Choice.transmitted .errTransport)] ++ go 0 1 ++
    [.call 0 (Op.sendCurrentControl ⟨0, .fin 0⟩)] ++ go 0 1 ++ up 0 ++ go 0 4 ++ up 0 ++ go 0 3 ++
    [.step 0 (Choice.transmitted .errTransport)] ++ go 0 3

/-- **A command after an unsent one** is refused, with a limit of one: nothing was transmitted, so
everything transmitted was answered. -/
theorem unsent_overruns : ∃ (log : List (Label (Motor.sample .priv).system))
    (k : Config (Motor.sample .priv).system),
    Path AnsweredBefore (Motor.sample .priv).initial log k ∧ k.state.sent = [] ∧
      ¬ NeverOverruns log := by
  have h : ((Motor.sample .priv).initial.log AnsweredBefore sendAfterUnsent).map (fun p =>
      (p.1.getLast?.bind returned, p.2.state.sent)) =
        some (some (0, .sendCurrentControl, .result .errOverrun), []) := by
    decide +kernel
  obtain ⟨⟨log, k⟩, hlog, hobserved⟩ := Option.map_eq_some_iff.mp h
  obtain ⟨hlast, hsent⟩ := Prod.mk.inj hobserved
  obtain ⟨l, hl, hreturned⟩ := Option.bind_eq_some_iff.mp hlast
  obtain ⟨ls, rfl⟩ := List.getLast?_eq_some_iff.mp hl
  obtain rfl := returned_eq_some.mp hreturned
  exact ⟨_, k, log_path hlog, hsent, not_neverOverruns rfl (log_path hlog)⟩

end Robstride
