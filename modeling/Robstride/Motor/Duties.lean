import Robstride.Motor.Locks

/-!
# Motor — Duties

What a thread in the middle of a call has to go by: the locks it holds, and how far its request is.
It gives back only locks it holds, and begins a wait only after its own `prepare_wait`
(`discharged_body`).  So a thread that waits for no lock of another thread has a step: `wait_for`
ends when the time of its request is over, if not before (`DutyLink.possible`).
-/

namespace Robstride

open Support Support.Pool Support.Prog

/-! ### What a thread has to go by -/

/-- How far the thread's request is. -/
inductive RequestPhase where
  | none
  | prepared
  | waiting
  deriving DecidableEq

/-- The locks of one motor that a thread holds, and its request. -/
structure Duty where
  command : ℕ
  motor : Bool
  request : RequestPhase

namespace Duty

/-- Nothing to give back, nothing asked. -/
def free : Duty where
  command := 0
  motor := false
  request := .none

/-- The locks alone. -/
def held (d : Duty) : Held where
  command := d.command
  motor := d.motor

/-- How far the request is after the action. -/
def requestAfter : (a : Action) → a.Res → RequestPhase → RequestPhase
  | .enter _, _, _ | .leave _ _, _, _ => .none
  | .prepare _ _, _, _ => .prepared
  | .startWait _, ready, phase => if ready then phase else .waiting
  | _, _, phase => phase

/-- What the thread has to go by after the action. -/
def after (a : Action) (r : a.Res) (d : Duty) : Duty where
  command := (Held.after a r d.held).command
  motor := (Held.after a r d.held).motor
  request := requestAfter a r d.request

/-- Locks are given back by their owners, a wait begins after its `prepare_wait`, and goes on only
where it began. -/
def Allows (d : Duty) : Action → Prop
  | .unlockCommand => 0 < d.command
  | .unlockMotor => d.motor = true
  | .startWait _ => d.motor = true ∧ d.request = .prepared
  | .wake => d.motor = false ∧ d.request = .waiting
  | .undefined => False
  | _ => True

end Duty

/-! ### Programs -/

/-- From any request on, the program keeps its duties, and ends with the locks it began with. -/
def Dutiful (n : ℕ) {α : Type} (p : Cmd α) : Prop :=
  ∀ phase, p.Track Duty.Allows Duty.after (fun _ d => d.held = ⟨n, false⟩) ⟨n, false, phase⟩

section Programs

variable {n : ℕ} {α β : Type}

/-- A duty of so many holds and no `motor_mutex_` differs only in its request. -/
theorem duty_eq {d : Duty} (h : d.held = ⟨n, false⟩) : d = ⟨n, false, d.request⟩ := by
  obtain ⟨command, motor, request⟩ := d
  obtain ⟨rfl, rfl⟩ := Held.mk.inj h
  rfl

/-- One dutiful program after another. -/
theorem Dutiful.bind {p : Cmd α} {f : α → Cmd β} (hp : Dutiful n p) (hf : ∀ x, Dutiful n (f x)) :
    Dutiful n (p >>= f) := by
  intro phase
  refine Track.bind (hp phase) fun x d hd => ?_
  rw [duty_eq hd]
  exact hf x d.request

/-- A returned value. -/
theorem Dutiful.ret (x : α) : Dutiful n (Prog.ret x : Cmd α) := fun _ => rfl

/-- Either branch. -/
theorem dutiful_ite {b : Prop} [Decidable b] {p q : Cmd α} (hp : Dutiful n p)
    (hq : Dutiful n q) : Dutiful n (if b then p else q) := by
  split_ifs
  · exact hp
  · exact hq

/-- An action that concerns no lock. -/
theorem Dutiful.perform {a : Action} (ha : a.LockFree) (hdefined : a ≠ .undefined) :
    Dutiful n (Prog.perform a : Cmd a.Res) := by
  intro phase
  constructor
  · cases a with
    | lockCommand | unlockCommand | lockMotor | unlockMotor | startWait _ | wake => exact ha.elim
    | undefined => exact absurd rfl hdefined
    | _ => trivial
  · intro r
    exact after_lockFree ha r ⟨n, false⟩

/-- The program keeps its duties from any request on, and ends without one. -/
def Concludes (n : ℕ) (p : Cmd α) : Prop :=
  ∀ phase, p.Track Duty.Allows Duty.after (fun _ d => d = ⟨n, false, .none⟩) ⟨n, false, phase⟩

/-- A program that ends without a request is dutiful. -/
theorem Concludes.dutiful {p : Cmd α} (h : Concludes n p) : Dutiful n p := by
  intro phase
  refine Track.mono (h phase) fun _ d hd => ?_
  rw [hd]
  rfl

/-- A call ends without a request. -/
theorem concludes_recorded {fn : Fn} {body : Cmd Result} (hbody : Dutiful n body) :
    Concludes n (recorded fn body) := by
  intro phase
  refine Track.act (a := Action.enter fn) trivial fun _ => ?_
  refine Track.bind (hbody .none) fun r d hd => ?_
  rw [duty_eq hd]
  exact ⟨trivial, fun _ => rfl⟩

/-- A body that runs under `command_mutex_`. -/
theorem dutiful_withCommandMutex {body : Cmd α} (hbody : Dutiful (n + 1) body) :
    Dutiful n (withCommandMutex body) := by
  intro phase
  refine Track.act (a := Action.lockCommand) trivial fun _ => ?_
  refine Track.bind (hbody phase) fun x d hd => ?_
  rw [duty_eq hd]
  exact ⟨Nat.succ_pos n, fun _ => rfl⟩

/-- A `prepare_wait` and what follows it. -/
theorem dutiful_prepareWait {fn : Fn} {expected : FrameType} {p : Cmd α}
    (hp : p.Track Duty.Allows Duty.after (fun _ d => d.held = ⟨n, false⟩) ⟨n, false, .prepared⟩) :
    Dutiful n (prepareWait fn expected >>= fun _ => p) :=
  fun _ => ⟨trivial, fun _ => ⟨trivial, fun _ => ⟨rfl, fun _ => hp⟩⟩⟩

/-- `wait_for` keeps `motor_mutex_`, or sleeps and takes it again. -/
theorem track_waitForResponse (timeoutMs : ℕ) : (waitForResponse timeoutMs).Track Duty.Allows
    Duty.after (fun _ d => d.held = ⟨n, false⟩) ⟨n, false, .prepared⟩ := by
  refine ⟨trivial, fun _ => ⟨⟨rfl, rfl⟩, fun ready => ?_⟩⟩
  cases ready with
  | true => exact ⟨rfl, fun _ => rfl⟩
  | false => exact ⟨⟨rfl, rfl⟩, fun _ => ⟨rfl, fun _ => rfl⟩⟩

/-- A synchronous command ends its request. -/
theorem concludes_request (fn : Fn) (frame : CanFrame) (expected : FrameType) (timeoutMs : ℕ)
    (failed : Result → Result) :
    Concludes n (Motor.request fn frame expected timeoutMs failed) := by
  have hconnected : Dutiful (n + 1) isConnected := .perform trivial nofun
  refine concludes_recorded (dutiful_withCommandMutex (hconnected.bind fun _ => dutiful_ite ?_ ?_))
  · refine dutiful_prepareWait (Track.act (a := Action.transmit fn frame) trivial fun sent => ?_)
    split_ifs
    · exact track_waitForResponse timeoutMs
    · rfl
  · exact .ret _

variable (m : Motor)

/-- `check_overrun`, with the stop inside it. -/
theorem dutiful_checkOverrun : Dutiful n m.checkOverrun := by
  have hadd : Dutiful n fetchAdd := .perform trivial nofun
  have hstore : Dutiful n (store m.overrunLimit) := .perform trivial nofun
  refine hadd.bind fun _ => dutiful_ite (hstore.bind fun _ => ?_) (.ret _)
  have hstop : Dutiful n m.stop := (concludes_request _ _ _ _ _).dutiful
  exact hstop.bind fun _ => .ret _

/-- A control command with a frame. -/
theorem concludes_send (fn : Fn) (frame : CanFrame) : Concludes n (m.send fn frame) := by
  have hconnected : Dutiful n isConnected := .perform trivial nofun
  have htransmit : Dutiful n (transmit fn frame) := .perform trivial nofun
  refine concludes_recorded (hconnected.bind fun _ => dutiful_ite ?_ (.ret _))
  exact (dutiful_checkOverrun m).bind fun _ => dutiful_ite htransmit (.ret _)

/-- A write. -/
theorem concludes_writeParameterRaw (paramId : BitVec 16) (rawPayload : BitVec 32) :
    Concludes n (m.writeParameterRaw paramId rawPayload) := by
  have hconnected : Dutiful (n + 1) isConnected := .perform trivial nofun
  refine concludes_recorded (dutiful_withCommandMutex (hconnected.bind fun _ => ?_))
  exact dutiful_ite (.perform trivial nofun) (.ret _)

/-- A read ends its request. -/
theorem concludes_readParameterRaw (paramId : BitVec 16) :
    Concludes n (m.readParameterRaw paramId) := by
  intro phase
  have hconnected : Dutiful (n + 1) isConnected := .perform trivial nofun
  refine Track.act (a := Action.enter (.readParameterRaw paramId)) trivial fun _ => ?_
  refine Track.bind (Q := fun _ d => d.held = ⟨n, false⟩) ?_ fun value d hd => ?_
  · refine dutiful_withCommandMutex (hconnected.bind fun _ => dutiful_ite ?_ (.ret _)) .none
    refine dutiful_prepareWait (Track.act (a := Action.transmit _ _) trivial fun sent => ?_)
    split_ifs
    · refine Track.bind (track_waitForResponse 100) fun waited d hd => ?_
      rw [duty_eq hd]
      split_ifs
      · exact ⟨trivial, fun _ => ⟨trivial, fun _ => ⟨rfl, fun _ => rfl⟩⟩⟩
      · rfl
    · rfl
  · rw [duty_eq hd]
    exact ⟨trivial, fun _ => rfl⟩

/-- `setup_mode`, write by write. -/
theorem concludes_setupMode (mode : RunMode) (limit1 limit2 limit3 : CFloat) :
    Concludes n (m.setupMode mode limit1 limit2 limit3) := by
  have hwrite : ∀ (param : TypedParam) (raw : BitVec 32), Dutiful n (m.writeParameter param raw) :=
    fun param raw => (concludes_writeParameterRaw m param.id raw).dutiful
  refine concludes_recorded ((hwrite _ _).bind fun _ => dutiful_ite ?_ (.ret _))
  cases mode with
  | operation | current | other name value => exact .ret _
  | speed =>
      refine (hwrite _ _).bind fun ok => Dutiful.bind ?_ fun _ => .ret _
      exact dutiful_ite (hwrite _ _) (.ret ok)
  | positionCsp => exact (hwrite _ _).bind fun _ => .ret _
  | position =>
      refine (hwrite _ _).bind fun ok => Dutiful.bind ?_ fun ok' => Dutiful.bind ?_ fun _ => .ret _
      · exact dutiful_ite (hwrite _ _) (.ret ok)
      · exact dutiful_ite (hwrite _ _) (.ret ok')

/-- The program keeps its duties, and leaves none behind. -/
abbrev Discharged (p : Cmd Unit) : Prop :=
  p.Track Duty.Allows Duty.after (fun _ d => d = .free) .free

/-- A call from the idle thread leaves nothing to do. -/
theorem Concludes.discharged {p : Cmd α} (h : Concludes 0 p) :
    Discharged (do let _ ← p : Cmd Unit) :=
  Track.bind (h .none) fun _ _ hd => hd

/-- What `process_frame` ends with. -/
theorem discharged_answer (frameType : FrameType) : (do
    let expected ← expectedType
    if frameType = expected then notify
    unlockMotor : Cmd Unit).Track Duty.Allows Duty.after (fun _ d => d = .free)
      ⟨0, true, .none⟩ := by
  refine Track.act (a := Action.expectedType) trivial fun expected => ?_
  split_ifs
  · exact ⟨trivial, fun _ => ⟨rfl, fun _ => rfl⟩⟩
  · exact ⟨rfl, fun _ => rfl⟩

/-- `process_frame` gives `motor_mutex_` back on every way out. -/
theorem discharged_processFrame (reply : Reply) : Discharged (m.processFrame reply) := by
  unfold Motor.processFrame
  split_ifs
  · refine Track.act (a := Action.lockMotor) trivial fun _ => ?_
    refine Track.act (a := Action.parse reply) trivial fun parsed => ?_
    split_ifs
    · refine Track.act (a := Action.fetchSub reply) trivial fun prev => ?_
      split_ifs
      · exact Track.act (a := Action.store 0) trivial fun _ => discharged_answer _
      · exact discharged_answer _
    · exact ⟨trivial, fun _ => ⟨rfl, fun _ => rfl⟩⟩
  · rfl

/-- The operation evaluates nothing without a defined value. -/
def Op.Defined (m : Motor) : Op → Prop
  | .sendMitControl torque pos vel kp kd =>
      m.protocol.encodeMitControl m.motorId m.hostId torque pos vel kp kd m.profile ≠ none
  | _ => True

/-- **Every operation** keeps its duties. -/
theorem discharged_body {op : Op} (hdefined : op.Defined m) : Discharged (m.body op) := by
  cases op with
  | enable | stop | clearError | ping | setZero => exact (concludes_request _ _ _ _ _).discharged
  | sendMitControl torque pos vel kp kd =>
      obtain ⟨frame, hframe⟩ := Option.ne_none_iff_exists'.mp hdefined
      have hsend : m.sendMitControl torque pos vel kp kd = m.send .sendMitControl (some frame) :=
        congrArg (m.send .sendMitControl) hframe
      have hconcludes := concludes_send (n := 0) m .sendMitControl frame
      rw [← hsend] at hconcludes
      exact hconcludes.discharged
  | sendCurrentControl _ | sendVelocityControl _ | sendPositionControl _ =>
      exact (concludes_send m _ _).discharged
  | setupMode mode limit1 limit2 limit3 => exact (concludes_setupMode m _ _ _ _).discharged
  | stopPpMode =>
      exact (concludes_recorded (concludes_writeParameterRaw m _ _).dutiful).discharged
  | writeParameterRaw paramId rawPayload => exact (concludes_writeParameterRaw m _ _).discharged
  | readParameterRaw paramId => exact (concludes_readParameterRaw m _).discharged
  | processFrame reply => exact discharged_processFrame m reply

end Programs

/-! ### One motor -/

/-- The state is as the thread's duties say. -/
structure DutyLink (s : State) (t : ℕ) (d : Duty) : Prop where
  held : s.held t = d.held
  request : d.request ≠ .none → ∃ i, (s.locals t).wait = some i ∧ i < s.next ∧
    (d.request = .waiting → (s.waits i).started = true)

section Steps

variable {m : Motor} {t u : ℕ} {s s' : State} {d : Duty} {a : Action} {ch : Choice} {r : a.Res}

/-- What a step leaves of the requests of other threads. -/
structure KeepsRequests (t : ℕ) (s s' : State) : Prop where
  locals : ∀ u, u ≠ t → s'.locals u = s.locals u
  next : s.next ≤ s'.next
  started : ∀ i < s.next, (s.waits i).started = true → (s'.waits i).started = true

/-- A wait that was begun stays begun when the thread's request changes. -/
theorem withWaitOf_started (s : State) (t : ℕ) {f : Wait → Wait}
    (hf : ∀ w, w.started = true → (f w).started = true) (i : ℕ)
    (h : (s.waits i).started = true) : ((s.withWaitOf t f).waits i).started = true := by
  simp only [State.withWaitOf]
  split_ifs
  · exact hf _ h
  · exact h

/-- A frame parsed begins no wait. -/
theorem recordParsed_started (s : State) (reply : Reply) (i : ℕ) :
    ((s.recordParsed reply).waits i).started = (s.waits i).started := by
  simp only [State.recordParsed]
  split_ifs <;> rfl

/-- The end of a call is the calling thread's own. -/
theorem close_locals (s : State) (fn : Fn) (hu : u ≠ t) : (s.close t fn).locals u = s.locals u := by
  unfold State.close
  split_ifs
  · exact Function.update_of_ne hu _ _
  · exact Function.update_of_ne hu _ _

/-- The end of a call begins no request. -/
theorem close_next (s : State) (t : ℕ) (fn : Fn) : (s.close t fn).next = s.next := by
  unfold State.close
  split_ifs <;> rfl

/-- **Every step** leaves the requests of other threads. -/
theorem keepsRequests (h : m.perform t a ch s = some (r, s')) : KeepsRequests t s s' := by
  cases perform_effect h with
  | enterSetup =>
      exact ⟨fun u hu => Function.update_of_ne hu _ _, le_rfl, fun _ _ h => h⟩
  | enter fn _ =>
      exact ⟨fun u hu => Function.update_of_ne hu _ _, le_rfl, fun _ _ h => h⟩
  | leave fn ret =>
      refine ⟨fun u hu => close_locals _ fn hu, ?_, fun i _ hi => ?_⟩
      · rw [close_next]
        exact le_rfl
      · rw [close_waits]
        exact withWaitOf_started s t (f := fun w => { w with result := some ret })
          (fun _ hw => hw) i hi
  | sent fn frame =>
      refine ⟨fun _ _ => rfl, le_rfl, fun i _ hi => ?_⟩
      exact withWaitOf_started (s.recordSent t fn frame) t
        (f := fun w => { w with tag := some s.sent.length }) (fun _ hw => hw) i hi
  | prepare fn expected =>
      refine ⟨fun u hu => Function.update_of_ne hu _ _, Nat.le_succ _, fun i hi h => ?_⟩
      refine Eq.trans (congrArg Wait.started ?_) h
      exact Function.update_of_ne hi.ne _ _
  | startWait timeoutMs owner =>
      refine ⟨fun _ _ => rfl, le_rfl, fun i _ hi => ?_⟩
      exact withWaitOf_started s t (f := fun w => { w with started := true }) (fun _ _ => rfl) i hi
  | parse reply status _ =>
      refine ⟨fun _ _ => rfl, le_rfl, fun i _ hi => ?_⟩
      rw [recordParsed_started]
      exact hi
  | other hsame =>
      refine ⟨fun u _ => by rw [hsame.locals], hsame.next.ge, fun i _ hi => ?_⟩
      rw [hsame.waits]
      exact hi
  | unsent fn frame => exact ⟨fun _ _ => rfl, le_rfl, fun _ _ h => h⟩
  | fetchAdd => exact ⟨fun _ _ => rfl, le_rfl, fun _ _ h => h⟩
  | fetchSub reply => exact ⟨fun _ _ => rfl, le_rfl, fun _ _ h => h⟩
  | store value => exact ⟨fun _ _ => rfl, le_rfl, fun _ _ h => h⟩

/-- The locks change as the duties say. -/
theorem DutyLink.takes (h : DutyLink s t d) (hok : d.Allows a)
    (hs : m.perform t a ch s = some (r, s')) : Takes t a r s s' := by
  cases a with
  | lockCommand => exact takes_lockCommand hs
  | unlockCommand => exact takes_unlockCommand hs
  | lockMotor => exact takes_lockMotor hs
  | unlockMotor => exact takes_unlockMotor hs
  | startWait timeoutMs =>
      refine takes_startWait ?_ hs
      rw [h.held]
      exact hok.1
  | wake => exact takes_wake hs
  | _ => exact takes_lockFree trivial hs

/-- The actions that change a thread's request. -/
def Action.Requests : Action → Prop
  | .enter _ | .leave _ _ | .prepare _ _ => True
  | _ => False

/-- Only a few actions change what a thread is doing. -/
theorem locals_kept (h : m.perform t a ch s = some (r, s')) (ha : ¬ a.Requests) :
    s'.locals = s.locals := by
  cases perform_effect h with
  | enterSetup | enter _ _ | leave _ _ | prepare _ _ => exact absurd trivial ha
  | other hsame => exact hsame.locals
  | _ => rfl

/-- The wait of a request begins. -/
theorem startWait_started {timeoutMs : ℕ} {ready : Bool} {i : ℕ}
    (hi : (s.locals t).wait = some i)
    (h : m.perform t (.startWait timeoutMs) ch s = some (ready, s')) :
    (s'.waits i).started = true := by
  have hstarted : ((s.withWaitOf t fun w => { w with started := true }).waits i).started = true := by
    simp only [State.withWaitOf]
    rw [if_pos hi]
  simp only [Motor.perform] at h
  split_ifs at h
  · obtain ⟨-, rfl⟩ := Prod.mk.inj (Option.some.inj h)
    exact hstarted
  · obtain ⟨-, rfl⟩ := Prod.mk.inj (Option.some.inj h)
    exact hstarted

/-- A request that the action leaves alone. -/
theorem DutyLink.same_request (h : DutyLink s t d)
    (hs : m.perform t a ch s = some (r, s')) (ha : ¬ a.Requests) (hrequest : d.request ≠ .none) :
    ∃ i, (s'.locals t).wait = some i ∧ i < s'.next ∧
      (d.request = .waiting → (s'.waits i).started = true) := by
  obtain ⟨-, hnext, hstarted⟩ := keepsRequests hs
  obtain ⟨i, hi, hlt, hwaiting⟩ := h.request hrequest
  refine ⟨i, ?_, hlt.trans_le hnext, fun hphase => hstarted i hlt (hwaiting hphase)⟩
  rw [locals_kept hs ha]
  exact hi

/-- The duties of the thread that acts. -/
theorem DutyLink.step (h : DutyLink s t d) (hok : d.Allows a)
    (hs : m.perform t a ch s = some (r, s')) : DutyLink s' t (d.after a r) := by
  constructor
  · rw [(h.takes hok hs).own, h.held]
    rfl
  · intro hrequest
    cases a with
    | enter fn => exact absurd rfl hrequest
    | leave fn ret => exact absurd rfl hrequest
    | prepare fn expected =>
        obtain ⟨-, rfl⟩ := Prod.mk.inj (Option.some.inj hs)
        refine ⟨s.next, ?_, Nat.lt_succ_self _, nofun⟩
        change (Function.update s.locals t _ t).wait = _
        rw [Function.update_self]
        rfl
    | startWait timeoutMs =>
        have hprepared : d.request ≠ .none := by
          rw [hok.2]
          exact fun h => by cases h
        obtain ⟨i, hi, hlt, -⟩ := h.same_request hs id hprepared
        refine ⟨i, hi, hlt, fun _ => startWait_started ?_ hs⟩
        rwa [locals_kept hs id] at hi
    | _ => exact h.same_request hs id hrequest

/-- The duties of the others. -/
theorem DutyLink.other {d' : Duty} (h : DutyLink s t d) (hok : d.Allows a)
    (hs : m.perform t a ch s = some (r, s')) (hu : u ≠ t) (h' : DutyLink s u d') :
    DutyLink s' u d' := by
  obtain ⟨hlocals, hnext, hstarted⟩ := keepsRequests hs
  refine ⟨((h.takes hok hs).others u hu).trans h'.held, fun hrequest => ?_⟩
  obtain ⟨i, hi, hlt, hwaiting⟩ := h'.request hrequest
  refine ⟨i, ?_, hlt.trans_le hnext, fun hphase => hstarted i hlt (hwaiting hphase)⟩
  rw [hlocals u hu]
  exact hi

/-- What happens on the bus concerns no duty. -/
theorem DutyLink.env {e : BusEvent} (h : DutyLink s t d) (he : s.env e = some s') :
    DutyLink s' t d := by
  rcases env_effect he with ⟨arrived, received, replies, rfl⟩ | ⟨i, -, rfl⟩
  · exact ⟨h.held, h.request⟩
  · refine ⟨h.held, fun hrequest => ?_⟩
    obtain ⟨j, hj, hlt, hwaiting⟩ := h.request hrequest
    refine ⟨j, hj, hlt, fun hphase => ?_⟩
    have hstarted := hwaiting hphase
    by_cases hji : j = i
    · subst hji
      simp only [State.withWait, Function.update_self]
      exact hstarted
    · simp only [State.withWait, Function.update_of_ne hji]
      exact hstarted

/-! ### Steps there are -/

/-- A `command_mutex_` that is held is held at least once. -/
def CountPos (s : State) : Prop := ∀ u n, s.commandMutex = some (u, n) → 0 < n

/-- What the transport answers to each question, if it is asked next. -/
structure Answers where
  connected : Bool
  written : Result
  refusal : Result
  refused : refusal ≠ .success

/-- The answer to an action; the actions that ask nothing just go on. -/
def Answers.choice (answers : Answers) : Action → Choice
  | .isConnected => .connected answers.connected
  | .transmit _ _ => .transmitted answers.written
  | _ => .go

/-- Perhaps after the time of a request is over, the action can be performed, whatever the
transport answers. -/
def Possible (m : Motor) (t : ℕ) (a : Action) (s : State) : Prop :=
  ∃ s₁, (s₁ = s ∨ ∃ i, s.env (.expire i) = some s₁) ∧
    ∀ answers : Answers, m.perform t a (answers.choice a) s₁ ≠ none

/-- An action that needs no lock. -/
theorem possible_lockFree (hfree : a.LockFree) (hdefined : a ≠ .undefined) :
    Possible m t a s := by
  refine ⟨s, Or.inl rfl, fun answers => ?_⟩
  cases a with
  | lockCommand | unlockCommand | lockMotor | unlockMotor | startWait _ | wake => exact hfree.elim
  | undefined => exact absurd rfl hdefined
  | enter fn =>
      simp only [Motor.perform]
      split_ifs <;> exact Option.some_ne_none _
  | transmit fn frame =>
      simp only [Answers.choice, Motor.perform]
      split_ifs <;> exact Option.some_ne_none _
  | parse reply =>
      simp only [Motor.perform]
      split <;> exact Option.some_ne_none _
  | _ => exact Option.some_ne_none _

/-- `command_mutex_` can be taken where no other thread has it. -/
theorem possible_lockCommand (hfree : ∀ u, 0 < s.commandCount u → u = t) (hcount : CountPos s) :
    Possible m t .lockCommand s := by
  refine ⟨s, Or.inl rfl, fun answers => ?_⟩
  simp only [Motor.perform]
  split
  next => exact Option.some_ne_none _
  next u n hheld =>
    have hu : u = t := by
      refine hfree u ?_
      rw [commandCount_self hheld]
      exact hcount u n hheld
    rw [if_pos hu]
    exact Option.some_ne_none _

/-- `motor_mutex_` can be taken where it is free. -/
theorem possible_lockMotor (hfree : s.motorMutex = none) : Possible m t .lockMotor s := by
  refine ⟨s, Or.inl rfl, fun answers => ?_⟩
  simp only [Motor.perform]
  rw [if_pos hfree]
  exact Option.some_ne_none _

/-- The wait ends when its time is over, if not before. -/
theorem possible_wake (h : DutyLink s t d) (hok : d.Allows .wake) (hfree : s.motorMutex = none) :
    Possible m t .wake s := by
  have hrequest : d.request ≠ .none := by
    rw [hok.2]
    exact fun h => by cases h
  obtain ⟨i, hi, hlt, hwaiting⟩ := h.request hrequest
  have hexpire : s.env (.expire i) = some (s.withWait i fun w => { w with expired := true }) :=
    if_pos ⟨hlt, hwaiting hok.2⟩
  refine ⟨_, Or.inr ⟨i, hexpire⟩, fun answers => ?_⟩
  simp only [Motor.perform, State.withWait, hfree, hi, Function.update_self, if_true]
  split_ifs <;> exact Option.some_ne_none _

/-- A thread that holds `command_mutex_` is its owner. -/
theorem exists_owner (h : 0 < s.commandCount t) : ∃ n, s.commandMutex = some (t, n) := by
  rw [State.commandCount] at h
  split at h
  next => cases h
  next u n hheld =>
    split_ifs at h with hu
    · exact ⟨n, by rw [hheld, hu]⟩
    · cases h

/-- Actions on no lock keep the count. -/
theorem CountPos.of_lockFree (h : CountPos s) (hs : m.perform t a ch s = some (r, s'))
    (ha : a.LockFree) : CountPos s' := by
  obtain ⟨hcommand, -⟩ := perform_lockFree ha hs
  intro u n hmutex
  rw [hcommand] at hmutex
  exact h u n hmutex

/-- Every step keeps the count positive. -/
theorem CountPos.step (h : CountPos s) (hs : m.perform t a ch s = some (r, s')) : CountPos s' := by
  cases a with
  | lockCommand =>
      simp only [Motor.perform] at hs
      repeat' split at hs
      all_goals cases hs
      all_goals
        intro u n hmutex
        obtain ⟨-, rfl⟩ := Prod.mk.inj (Option.some.inj hmutex)
        exact Nat.succ_pos _
  | unlockCommand =>
      simp only [Motor.perform] at hs
      split at hs
      next => cases hs
      next u n hheld =>
        split_ifs at hs with hu hone
        · obtain ⟨-, rfl⟩ := Prod.mk.inj (Option.some.inj hs)
          exact fun v k hmutex => by cases hmutex
        · obtain ⟨-, rfl⟩ := Prod.mk.inj (Option.some.inj hs)
          intro v k hmutex
          obtain ⟨-, rfl⟩ := Prod.mk.inj (Option.some.inj hmutex)
          have hpos := h u n hheld
          omega
  | lockMotor | unlockMotor | startWait _ | wake =>
      simp only [Motor.perform] at hs
      repeat' split at hs
      all_goals cases hs
      all_goals exact h
  | _ => exact h.of_lockFree hs trivial

/-- So do the line and the clock. -/
theorem CountPos.env {e : BusEvent} (h : CountPos s) (he : s.env e = some s') : CountPos s' := by
  rcases env_effect he with ⟨arrived, received, replies, rfl⟩ | ⟨i, -, rfl⟩ <;> exact h

/-- **A thread that waits for no lock** has a step. -/
theorem DutyLink.possible (h : DutyLink s t d) (hok : d.Allows a) (hcount : CountPos s)
    (hcommand : a = .lockCommand → ∀ u, 0 < s.commandCount u → u = t)
    (hmotor : a = .lockMotor ∨ a = .wake → s.motorMutex = none) : Possible m t a s := by
  have hcountEq : s.commandCount t = d.command := congrArg Held.command h.held
  have howner : d.motor = true → s.motorMutex = some t := by
    intro hmotor
    have hbeq : (s.motorMutex == some t) = true := (congrArg Held.motor h.held).trans hmotor
    exact eq_of_beq hbeq
  cases a with
  | lockCommand => exact possible_lockCommand (hcommand rfl) hcount
  | lockMotor => exact possible_lockMotor (hmotor (Or.inl rfl))
  | wake => exact possible_wake h hok (hmotor (Or.inr rfl))
  | unlockCommand =>
      have hpos : 0 < s.commandCount t := by
        rw [hcountEq]
        exact hok
      obtain ⟨n, hmutex⟩ := exists_owner hpos
      refine ⟨s, Or.inl rfl, fun answers => ?_⟩
      simp only [Motor.perform, hmutex, if_true]
      exact Option.some_ne_none _
  | unlockMotor =>
      refine ⟨s, Or.inl rfl, fun answers => ?_⟩
      simp only [Motor.perform, howner hok, if_true]
      exact Option.some_ne_none _
  | startWait timeoutMs =>
      refine ⟨s, Or.inl rfl, fun answers => ?_⟩
      simp only [Motor.perform]
      split_ifs <;> exact Option.some_ne_none _
  | undefined => exact hok.elim
  | _ => exact possible_lockFree trivial fun heq => by cases heq

end Steps

end Robstride
