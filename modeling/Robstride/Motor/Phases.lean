import Robstride.Motor.Operations
import Robstride.Support.Phases

/-!
# Motor — Phases

Where a thread stands between its actions on `motor_mutex_` and on `unacknowledged_commands_`: it
holds the mutex or does not, has parsed a frame it has not counted yet, has found the counter not
positive and not reset it yet, or has found it over the limit and not set it back yet.  Every
operation goes through these phases and ends where it began (`phases_kept`).

One thread at most is in a phase that holds the mutex, so the counter is counted down only while
nobody is between the two steps that reset it (`Linked.counts_down`).
-/

namespace Robstride

open Support Support.Prog Support.Pool Support.Pool.Phases

/-! ### The phases of a thread -/

/-- What a thread holds, and what it owes the counter. -/
inductive Phase where
  | free
  /-- `check_overrun` has found the counter over the limit. -/
  | exceeded
  | held
  /-- `process_frame` has parsed a frame. -/
  | parsed
  /-- `process_frame` has found the counter not positive. -/
  | clearing
  deriving DecidableEq

/-- The thread holds `motor_mutex_`. -/
def Phase.Holds : Phase → Prop
  | free | exceeded => False
  | held | parsed | clearing => True

/-- What a thread may perform in a phase. -/
def Phase.Allows (m : Motor) : Phase → Action → Prop
  | free, .enter _ | free, .leave _ _ | free, .lockCommand | free, .unlockCommand
  | free, .isConnected | free, .transmit _ _ | free, .lockMotor | free, .wake | free, .fetchAdd
  | free, .undefined => True
  | exceeded, .store value => value = m.overrunLimit
  | held, .unlockMotor | held, .prepare _ _ | held, .startWait _ | held, .readParam
  | held, .parse _ | held, .expectedType | held, .notify | held, .countUnknown => True
  | parsed, .fetchSub _ => True
  | clearing, .store value => value = 0
  | _, _ => False

/-- Where an action and its answer take the thread. -/
def Phase.next (m : Motor) : Phase → (a : Action) → a.Res → Phase
  | _, .lockMotor, _ => held
  | _, .wake, _ => held
  | _, .unlockMotor, _ => free
  | _, .startWait _, ready => if ready = true then held else free
  | _, .parse _, accepted => if accepted = true then parsed else held
  | _, .fetchSub _, prev => if prev.sle 0 = true then clearing else held
  | _, .fetchAdd, pending => if m.overrunLimit.slt pending = true then exceeded else free
  | exceeded, .store _, _ => free
  | _, .store _, _ => held
  | φ, _, _ => φ

/-- Only a thread that has parsed a frame counts down. -/
theorem Phase.of_fetchSub {m : Motor} {φ : Phase} {reply : Reply}
    (hok : Phase.Allows m φ (.fetchSub reply)) : φ = .parsed := by
  cases φ with
  | parsed => rfl
  | free | exceeded | held | clearing => exact hok.elim

/-- The counter is set back to the limit, or reset. -/
theorem Phase.of_store {m : Motor} {φ : Phase} {value : BitVec 32}
    (hok : Phase.Allows m φ (.store value)) :
    φ = .exceeded ∧ value = m.overrunLimit ∨ φ = .clearing ∧ value = 0 := by
  cases φ with
  | exceeded => exact Or.inl ⟨rfl, hok⟩
  | clearing => exact Or.inr ⟨rfl, hok⟩
  | free | held | parsed => exact hok.elim

/-- The phases of a motor's threads. -/
def Motor.phases (m : Motor) : Phases m.system where
  Phase := Phase
  idle := .free
  ok := Phase.Allows m
  next := Phase.next m

/-! ### Programs -/

section Programs

variable {m : Motor} {α β : Type}

/-- The program begins and ends without the mutex. -/
def Rests (m : Motor) (p : Cmd α) : Prop := m.phases.Obeys (fun _ φ => φ = Phase.free) p .free

/-- One program at rest after another. -/
theorem Rests.bind {p : Cmd α} {f : α → Cmd β} (hp : Rests m p) (hf : ∀ x, Rests m (f x)) :
    Rests m (p >>= f) := by
  refine Obeys.bind hp ?_
  rintro x _ rfl
  exact hf x

/-- A value. -/
theorem Rests.pure (x : α) : Rests m (pure x) := rfl

/-- An action that has nothing to do with the mutex or the counter. -/
theorem Rests.perform {a : Action} (hok : Phase.Allows m .free a)
    (hnext : ∀ r, Phase.next m .free a r = .free) : Rests m (.perform a) :=
  Obeys.perform hok hnext

/-- The records of a call have nothing to do with the mutex. -/
theorem recorded_rests {fn : Fn} {body : Cmd Result} (h : Rests m body) :
    Rests m (recorded fn body) :=
  Rests.bind (.perform trivial fun _ => rfl) fun _ => Rests.bind h fun _ =>
    Rests.bind (.perform trivial fun _ => rfl) fun _ => Rests.pure _

/-- `command_mutex_` is no phase. -/
theorem withCommandMutex_rests {body : Cmd α} (h : Rests m body) : Rests m (withCommandMutex body) :=
  Rests.bind (.perform trivial fun _ => rfl) fun _ => Rests.bind h fun _ =>
    Rests.bind (.perform trivial fun _ => rfl) fun _ => Rests.pure _

/-- The test for the connection rests. -/
theorem isConnected_rests : Rests m isConnected := .perform trivial fun _ => rfl

/-- A transmit rests. -/
theorem transmit_rests (fn : Fn) (frame : CanFrame) : Rests m (transmit fn frame) :=
  .perform trivial fun _ => rfl

/-- `prepare_wait` is a section of its own. -/
theorem prepareWait_rests (fn : Fn) (expected : FrameType) : Rests m (prepareWait fn expected) :=
  ⟨trivial, fun _ => ⟨trivial, fun _ => ⟨trivial, fun _ => rfl⟩⟩⟩

/-- `wait_for` gives the mutex up only to take it again. -/
theorem waitForResponse_rests (timeoutMs : ℕ) : Rests m (waitForResponse timeoutMs) := by
  refine ⟨trivial, fun _ => ⟨trivial, fun ready => ?_⟩⟩
  cases ready with
  | true => exact ⟨trivial, fun _ => rfl⟩
  | false => exact ⟨trivial, fun _ => ⟨trivial, fun _ => rfl⟩⟩

/-- A synchronous command takes the mutex for its `prepare_wait` and for its wait. -/
theorem request_rests (fn : Fn) (frame : CanFrame) (expected : FrameType) (timeoutMs : ℕ)
    (failed : Result → Result) :
    Rests m (Motor.request fn frame expected timeoutMs failed) := by
  refine recorded_rests (withCommandMutex_rests (isConnected_rests.bind fun connected => ?_))
  split_ifs
  · refine (prepareWait_rests fn expected).bind fun _ => (transmit_rests fn frame).bind
      fun sent => ?_
    split_ifs
    · exact waitForResponse_rests timeoutMs
    · exact Rests.pure _
  · exact Rests.pure _

/-- A counter over the limit is set back at once. -/
theorem checkOverrun_rests : Rests m m.checkOverrun := by
  refine Obeys.act trivial fun pending => ?_
  by_cases hover : m.overrunLimit.slt pending = true
  · have hnext : m.phases.next Phase.free Action.fetchAdd pending = Phase.exceeded := if_pos hover
    rw [hnext, if_pos hover]
    exact Obeys.act rfl fun _ => Rests.bind (request_rests _ _ _ _ _) fun _ => Rests.pure _
  · have hnext : m.phases.next Phase.free Action.fetchAdd pending = Phase.free := if_neg hover
    rw [hnext, if_neg hover]
    exact Rests.pure _

/-- A control command counts first, and stores what it owes. -/
theorem send_rests (fn : Fn) (frame : Option CanFrame) : Rests m (m.send fn frame) := by
  refine recorded_rests (isConnected_rests.bind fun connected => ?_)
  split_ifs
  · refine checkOverrun_rests.bind fun passed => ?_
    split_ifs
    · cases frame with
      | none => exact ⟨trivial, fun r => r.elim⟩
      | some frame => exact transmit_rests fn frame
    · exact Rests.pure _
  · exact Rests.pure _

/-- A write rests. -/
theorem writeParameterRaw_rests (paramId : BitVec 16) (rawPayload : BitVec 32) :
    Rests m (m.writeParameterRaw paramId rawPayload) := by
  refine recorded_rests (withCommandMutex_rests (isConnected_rests.bind fun connected => ?_))
  split_ifs
  · exact transmit_rests _ _
  · exact Rests.pure _

/-- A read takes the mutex three times. -/
theorem readParameterRaw_rests (paramId : BitVec 16) : Rests m (m.readParameterRaw paramId) := by
  refine Rests.bind (.perform trivial fun _ => rfl) fun _ => Rests.bind
    (withCommandMutex_rests (isConnected_rests.bind fun connected => ?_)) fun _ =>
      Rests.bind (.perform trivial fun _ => rfl) fun _ => Rests.pure _
  split_ifs
  · refine (prepareWait_rests _ _).bind fun _ => (transmit_rests _ _).bind fun sent => ?_
    split_ifs
    · refine (waitForResponse_rests 100).bind fun waited => ?_
      split_ifs
      · exact ⟨trivial, fun _ => ⟨trivial, fun _ => ⟨trivial, fun _ => rfl⟩⟩⟩
      · exact Rests.pure _
    · exact Rests.pure _
  · exact Rests.pure _

/-- `setup_mode` rests between its writes. -/
theorem setupMode_rests (mode : RunMode) (limit1 limit2 limit3 : CFloat) :
    Rests m (m.setupMode mode limit1 limit2 limit3) := by
  have hwrite : ∀ (param : TypedParam) (raw : BitVec 32), Rests m (m.writeParameter param raw) :=
    fun param raw => writeParameterRaw_rests _ _
  have hnext : ∀ (p : Prop) [Decidable p] (param : TypedParam) (raw : BitVec 32) (ok : Result),
      Rests m (if p then m.writeParameter param raw else pure ok : Cmd Result) := by
    intro p _ param raw ok
    split_ifs
    · exact hwrite param raw
    · exact Rests.pure _
  refine recorded_rests ((hwrite _ _).bind fun written => ?_)
  split_ifs
  · cases mode with
    | operation | current | other _ _ => exact Rests.pure _
    | speed =>
        exact (hwrite _ _).bind fun _ => (hnext _ _ _ _).bind fun _ => Rests.pure _
    | positionCsp => exact (hwrite _ _).bind fun _ => Rests.pure _
    | position =>
        exact (hwrite _ _).bind fun _ => (hnext _ _ _ _).bind fun _ => (hnext _ _ _ _).bind fun _ =>
          Rests.pure _
  · exact Rests.pure _

/-- What `process_frame` ends with, under the mutex. -/
theorem answer_obeys (frameType : FrameType) : m.phases.Obeys (fun _ φ => φ = Phase.free) (do
    let expected ← expectedType
    if frameType = expected then notify
    unlockMotor : Cmd Unit) Phase.held := by
  refine Obeys.act trivial fun expected => ?_
  split_ifs
  · exact Obeys.act trivial fun _ => Obeys.perform trivial fun _ => rfl
  · exact Obeys.perform trivial fun _ => rfl

/-- `process_frame` counts each frame it parsed, and resets a counter it found not positive. -/
theorem processFrame_rests (reply : Reply) : Rests m (m.processFrame reply) := by
  unfold Motor.processFrame
  split_ifs
  · refine Obeys.act trivial fun _ => Obeys.act trivial fun accepted => ?_
    cases accepted with
    | false => exact Obeys.act trivial fun _ => Obeys.perform trivial fun _ => rfl
    | true =>
        refine Obeys.act trivial fun prev => ?_
        by_cases hprev : prev.sle 0 = true
        · have hnext : m.phases.next Phase.parsed (.fetchSub reply) prev = Phase.clearing :=
            if_pos hprev
          rw [if_pos hprev]
          change m.phases.Obeys _ _ (m.phases.next Phase.parsed (.fetchSub reply) prev)
          rw [hnext]
          exact Obeys.act rfl fun _ => answer_obeys _
        · have hnext : m.phases.next Phase.parsed (.fetchSub reply) prev = Phase.held :=
            if_neg hprev
          rw [if_neg hprev]
          change m.phases.Obeys _ _ (m.phases.next Phase.parsed (.fetchSub reply) prev)
          rw [hnext]
          exact answer_obeys _
  · exact Rests.pure _

/-- Dropping the result rests. -/
theorem drop_rests {α : Type} {p : Cmd α} (h : Rests m p) : Rests m (do let _ ← p : Cmd Unit) :=
  h.bind fun _ => Rests.pure ()

/-- **Every function** begins and ends without the mutex. -/
theorem every_rests : m.EveryFunction (Rests m) where
  request _ _ _ _ _ := drop_rests (request_rests _ _ _ _ _)
  send _ _ := drop_rests (send_rests _ _)
  setupMode mode _ _ _ := drop_rests (setupMode_rests mode _ _ _)
  stopPpMode := drop_rests (recorded_rests (writeParameterRaw_rests _ _))
  writeParameterRaw _ _ := drop_rests (writeParameterRaw_rests _ _)
  readParameterRaw _ := drop_rests (readParameterRaw_rests _)
  processFrame := processFrame_rests

/-- **Every operation** goes through the phases. -/
theorem phases_kept (m : Motor) : m.phases.Kept := every_rests.body

end Programs

/-! ### The phases and the state -/

/-- The action neither moves `motor_mutex_` nor bears on the reset of the counter. -/
def Action.Neutral : Action → Prop
  | .lockMotor | .unlockMotor | .startWait _ | .wake | .fetchSub _ | .store _ => False
  | _ => True

section

variable {m : Motor} {t : ℕ} {s s' : State} {a : Action} {ch : Choice} {r : a.Res}

/-- A neutral action leaves the mutex. -/
theorem perform_mutex (ha : a.Neutral) (h : m.perform t a ch s = some (r, s')) :
    s'.motorMutex = s.motorMutex := by
  cases a with
  | lockMotor | unlockMotor | startWait _ | wake | fetchSub _ | store _ => exact ha.elim
  | leave fn value =>
      obtain ⟨-, rfl⟩ := Prod.mk.inj (Option.some.inj h)
      simp only [State.close]
      split_ifs <;> rfl
  | isConnected =>
      obtain rfl := perform_isConnected h
      rfl
  | transmit fn frame => rcases perform_transmit h with ⟨-, rfl⟩ | ⟨-, rfl⟩ <;> rfl
  | _ =>
      simp only [Motor.perform] at h
      repeat' split at h
      all_goals cases h
      all_goals rfl

/-- A neutral action leaves the reset that is due. -/
theorem perform_clearing (ha : a.Neutral) (h : m.perform t a ch s = some (r, s')) :
    s'.clearing = s.clearing := by
  cases perform_effect h with
  | fetchSub reply => exact ha.elim
  | store value => exact ha.elim
  | leave fn value =>
      simp only [State.close]
      split_ifs <;> rfl
  | other hsame => exact hsame.clearing
  | _ => rfl

end

/-- The phases say who holds the mutex, and account for a counter that is to be reset. -/
structure Linked (s : State) (φ : ℕ → Phase) : Prop where
  mutex : ∀ t, s.motorMutex = some t ↔ (φ t).Holds
  clearing : s.clearing = true ↔ ∃ t, φ t = .clearing

namespace Linked

variable {m : Motor} {s s' : State} {φ : ℕ → Phase} {t : ℕ} {ψ : Phase}

/-- Nobody holds the mutex at first, and no reset is due. -/
theorem initial (m : Motor) : Linked m.initialState fun _ => .free :=
  ⟨fun _ => iff_of_false nofun id, iff_of_false nofun fun ⟨_, ht⟩ => nomatch ht⟩

/-- A thread that holds the mutex is the only one. -/
theorem eq_of_holds (h : Linked s φ) (ht : (φ t).Holds) {u : ℕ} (hu : (φ u).Holds) : u = t :=
  Option.some.inj (((h.mutex u).mpr hu).symm.trans ((h.mutex t).mpr ht))

/-- The counter is counted down only while nobody is about to reset it. -/
theorem counts_down (h : Linked s φ) (ht : φ t = .parsed) : s.clearing = false := by
  refine Bool.eq_false_iff.mpr fun hclearing => ?_
  obtain ⟨u, hu⟩ := h.clearing.mp hclearing
  have hsame : u = t := h.eq_of_holds (by rw [ht]; trivial) (by rw [hu]; trivial)
  rw [hsame, ht] at hu
  cases hu

/-- The mutex stays where it is. -/
theorem keep (h : Linked s φ) (hmutex : s'.motorMutex = s.motorMutex)
    (hψ : ψ.Holds ↔ (φ t).Holds)
    (hclearing : s'.clearing = true ↔ ψ = .clearing ∨ s.clearing = true ∧ φ t ≠ .clearing) :
    Linked s' (Function.update φ t ψ) where
  mutex u := by
    rw [hmutex, h.mutex u]
    rcases eq_or_ne u t with rfl | hu
    · rw [Function.update_self, hψ]
    · rw [Function.update_of_ne hu]
  clearing := by
    rw [hclearing, h.clearing]
    constructor
    · rintro (rfl | ⟨⟨u, hu⟩, ht⟩)
      · exact ⟨t, Function.update_self ..⟩
      · refine ⟨u, ?_⟩
        rw [Function.update_of_ne, hu]
        rintro rfl
        exact ht hu
    · rintro ⟨u, hu⟩
      rcases eq_or_ne u t with rfl | hne
      · rw [Function.update_self] at hu
        exact Or.inl hu
      · rw [Function.update_of_ne hne] at hu
        refine Or.inr ⟨⟨u, hu⟩, fun ht => hne ?_⟩
        exact h.eq_of_holds (by rw [ht]; trivial) (by rw [hu]; trivial)

/-- Nothing changes. -/
theorem same (h : Linked s φ) (hmutex : s'.motorMutex = s.motorMutex)
    (hclearing : s'.clearing = s.clearing) : Linked s' φ :=
  ⟨fun u => hmutex ▸ h.mutex u, hclearing ▸ h.clearing⟩

/-- Other threads account for a reset as before. -/
theorem clearing_update (h : Linked s φ) (hclearing : s'.clearing = s.clearing)
    (hφ : φ t ≠ .clearing) (hψ : ψ ≠ .clearing) :
    s'.clearing = true ↔ ∃ u, Function.update φ t ψ u = .clearing := by
  rw [hclearing, h.clearing]
  refine exists_congr fun u => ?_
  rcases eq_or_ne u t with rfl | hu
  · rw [Function.update_self]
    exact iff_of_false hφ hψ
  · rw [Function.update_of_ne hu]

/-- The thread takes the free mutex. -/
theorem take (h : Linked s φ) (hfree : s.motorMutex = none) (hmutex : s'.motorMutex = some t)
    (hclearing : s'.clearing = s.clearing) (hφ : φ t ≠ .clearing) :
    Linked s' (Function.update φ t .held) where
  mutex u := by
    rw [hmutex]
    rcases eq_or_ne u t with rfl | hu
    · rw [Function.update_self]
      exact iff_of_true rfl trivial
    · rw [Function.update_of_ne hu, ← h.mutex u, hfree]
      exact iff_of_false (fun he => hu (Option.some.inj he).symm) nofun
  clearing := h.clearing_update hclearing hφ nofun

/-- The thread gives its mutex back. -/
theorem give (h : Linked s φ) (hheld : s.motorMutex = some t) (hmutex : s'.motorMutex = none)
    (hclearing : s'.clearing = s.clearing) (hφ : φ t ≠ .clearing) :
    Linked s' (Function.update φ t .free) where
  mutex u := by
    rw [hmutex]
    rcases eq_or_ne u t with rfl | hu
    · rw [Function.update_self]
      exact iff_of_false nofun id
    · rw [Function.update_of_ne hu, ← h.mutex u, hheld]
      exact iff_of_false nofun fun he => hu (Option.some.inj he).symm
  clearing := h.clearing_update hclearing hφ nofun

/-- A step that has nothing to do with the mutex or the counter. -/
theorem other {a : Action} {ch : Choice} {r : a.Res} (hl : Linked s φ)
    (h : m.perform t a ch s = some (r, s')) (ha : a.Neutral) (hholds : ψ.Holds ↔ (φ t).Holds)
    (hφ : φ t ≠ .clearing) (hψ : ψ ≠ .clearing) : Linked s' (Function.update φ t ψ) :=
  hl.keep (perform_mutex ha h) hholds (by simp [perform_clearing ha h, hφ, hψ])

section Steps

variable {a : Action} {ch : Choice} {r : a.Res}

/-- A thread without the mutex takes it, counts a command, or touches neither. -/
theorem step_free (hl : Linked s φ) (hφ : φ t = .free) (hok : Phase.Allows m .free a)
    (h : m.perform t a ch s = some (r, s')) :
    Linked s' (Function.update φ t (Phase.next m .free a r)) := by
  have hne : φ t ≠ .clearing := by
    intro heq
    cases hφ.symm.trans heq
  have hother : ∀ ψ : Phase, ψ = .free ∨ ψ = .exceeded → a.Neutral →
      Linked s' (Function.update φ t ψ) := by
    rintro ψ (rfl | rfl) ha
    · exact hl.other h ha (by rw [hφ]) hne (by intro heq; cases heq)
    · exact hl.other h ha (by rw [hφ]; exact Iff.rfl) hne (by intro heq; cases heq)
  cases a with
  | lockMotor =>
      simp only [Motor.perform] at h
      split_ifs at h with hfree
      obtain ⟨-, rfl⟩ := Prod.mk.inj (Option.some.inj h)
      exact hl.take hfree rfl rfl hne
  | wake =>
      simp only [Motor.perform] at h
      split_ifs at h with hfree hready
      · obtain ⟨-, rfl⟩ := Prod.mk.inj (Option.some.inj h)
        exact hl.take hfree rfl rfl hne
      · split at h
        next => cases h
        next =>
          split_ifs at h
          obtain ⟨-, rfl⟩ := Prod.mk.inj (Option.some.inj h)
          exact hl.take hfree rfl rfl hne
  | fetchAdd =>
      simp only [Phase.next]
      split_ifs
      · exact hother .exceeded (Or.inr rfl) trivial
      · exact hother .free (Or.inl rfl) trivial
  | enter _ | leave _ _ | lockCommand | unlockCommand | isConnected | transmit _ _
  | undefined => exact hother .free (Or.inl rfl) trivial
  | _ => exact hok.elim

/-- Setting the counter back to the limit ends no reset: the thread is without the mutex. -/
theorem step_exceeded (hl : Linked s φ) (hφ : φ t = .exceeded) (hok : Phase.Allows m .exceeded a)
    (h : m.perform t a ch s = some (r, s')) :
    Linked s' (Function.update φ t (Phase.next m .exceeded a r)) := by
  have hnot : s.motorMutex ≠ some t := by
    intro hheld
    have hholds := (hl.mutex t).mp hheld
    rw [hφ] at hholds
    exact hholds
  cases a with
  | store value =>
      obtain ⟨-, rfl⟩ := Prod.mk.inj (Option.some.inj h)
      refine hl.keep rfl (by rw [hφ]; exact Iff.rfl) ?_
      simp [Phase.next, hφ, hnot]
  | _ => exact hok.elim

/-- A thread with the mutex gives it back, parses a frame, or touches neither. -/
theorem step_held (hl : Linked s φ) (hφ : φ t = .held) (hok : Phase.Allows m .held a)
    (h : m.perform t a ch s = some (r, s')) :
    Linked s' (Function.update φ t (Phase.next m .held a r)) := by
  have hheld : s.motorMutex = some t := (hl.mutex t).mpr (by rw [hφ]; trivial)
  have hne : φ t ≠ .clearing := by
    intro heq
    cases hφ.symm.trans heq
  have hother : ∀ ψ : Phase, ψ = .held ∨ ψ = .parsed → a.Neutral →
      Linked s' (Function.update φ t ψ) := by
    rintro ψ (rfl | rfl) ha
    · exact hl.other h ha (by rw [hφ]) hne (by intro heq; cases heq)
    · exact hl.other h ha (by rw [hφ]; exact Iff.rfl) hne (by intro heq; cases heq)
  cases a with
  | unlockMotor =>
      simp only [Motor.perform, hheld, if_true] at h
      obtain ⟨-, rfl⟩ := Prod.mk.inj (Option.some.inj h)
      exact hl.give hheld rfl rfl hne
  | startWait timeoutMs =>
      simp only [Motor.perform] at h
      split_ifs at h
      · obtain ⟨rfl, rfl⟩ := Prod.mk.inj (Option.some.inj h)
        refine hl.keep rfl (by rw [hφ]; exact Iff.rfl) ?_
        simp [State.withWaitOf, Phase.next, hne]
      · obtain ⟨rfl, rfl⟩ := Prod.mk.inj (Option.some.inj h)
        exact hl.give hheld rfl rfl hne
  | parse reply =>
      simp only [Phase.next]
      split_ifs
      · exact hother .parsed (Or.inr rfl) trivial
      · exact hother .held (Or.inl rfl) trivial
  | prepare _ _ | readParam | expectedType | notify | countUnknown =>
      exact hother .held (Or.inl rfl) trivial
  | _ => exact hok.elim

/-- The thread that counts a frame down is the one that resets the counter. -/
theorem step_parsed (hl : Linked s φ) (hφ : φ t = .parsed) (hok : Phase.Allows m .parsed a)
    (h : m.perform t a ch s = some (r, s')) :
    Linked s' (Function.update φ t (Phase.next m .parsed a r)) := by
  have hclearing := hl.counts_down hφ
  cases a with
  | fetchSub reply =>
      obtain ⟨rfl, rfl⟩ := Prod.mk.inj (Option.some.inj h)
      simp only [Phase.next]
      split_ifs with hprev
      · exact hl.keep rfl (by rw [hφ]; exact Iff.rfl) (iff_of_true hprev (Or.inl rfl))
      · refine hl.keep rfl (by rw [hφ]; exact Iff.rfl) (iff_of_false hprev ?_)
        simp [hclearing]
  | _ => exact hok.elim

/-- The reset that was due is made. -/
theorem step_clearing (hl : Linked s φ) (hφ : φ t = .clearing) (hok : Phase.Allows m .clearing a)
    (h : m.perform t a ch s = some (r, s')) :
    Linked s' (Function.update φ t (Phase.next m .clearing a r)) := by
  have hheld : s.motorMutex = some t := (hl.mutex t).mpr (by rw [hφ]; trivial)
  cases a with
  | store value =>
      obtain ⟨-, rfl⟩ := Prod.mk.inj (Option.some.inj h)
      refine hl.keep rfl (by rw [hφ]; exact Iff.rfl) ?_
      simp [Phase.next, hφ, hheld]
  | _ => exact hok.elim

/-- **Every step** of a thread that follows the phases keeps the link. -/
theorem step (hl : Linked s φ) (hok : Phase.Allows m (φ t) a)
    (h : m.perform t a ch s = some (r, s')) :
    Linked s' (Function.update φ t (Phase.next m (φ t) a r)) := by
  cases hφ : φ t with
  | free => exact hl.step_free hφ (hφ ▸ hok) h
  | exceeded => exact hl.step_exceeded hφ (hφ ▸ hok) h
  | held => exact hl.step_held hφ (hφ ▸ hok) h
  | parsed => exact hl.step_parsed hφ (hφ ▸ hok) h
  | clearing => exact hl.step_clearing hφ (hφ ▸ hok) h

end Steps

/-- A call or a move of the environment keeps it. -/
theorem call {op : Op} (hl : Linked s φ) (h : s.call op = some s') : Linked s' φ := by
  obtain ⟨replies, rfl⟩ := call_effect h
  exact hl.same rfl rfl

/-- The line and the clock have no phase. -/
theorem env {e : BusEvent} (hl : Linked s φ) (h : s.env e = some s') : Linked s' φ := by
  rcases env_effect h with ⟨arrived, received, replies, rfl⟩ | ⟨i, -, rfl⟩ <;> exact hl.same rfl rfl

end Linked

end Robstride
