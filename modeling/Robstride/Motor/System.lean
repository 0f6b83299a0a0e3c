import Mathlib.Data.List.Basic
import Robstride.Sdk.Motor
import Robstride.Support.Pool

/-!
# Motor — System

One `Motor`, the threads that call it, and the bus to the motor it drives: what the actions of
`Sdk/Motor.lean` do to the shared state, and what the environment may do in between.

The bus carries the transmitted frames in order; each is lost or received, and for each frame
received the motor may put one reply on the way back.  Replies come back in order, and any of
them may be lost.  A frame that answers nothing may arrive too (`unsolicited`).

The second half of the state is a record of what happened, which the code does not see: for each
`prepare_wait` what became of the request that made it (`Wait`), the control commands without a
reply, the writes of each `setup_mode` call.
-/

namespace Robstride

open Support Support.Pool

/-! ### State -/

/-- A frame parsed, and whether the time of a given request was not yet over. -/
structure Parsed where
  reply : Reply
  inTime : Bool
  deriving DecidableEq

/-- A request: what happened from its `prepare_wait` on. -/
structure Wait where
  thread : ℕ
  fn : Fn
  expected : FrameType
  /-- The number of its frame, once transmitted. -/
  tag : Option ℕ
  /-- `wait_for` was entered. -/
  started : Bool
  /-- The timeout has passed. -/
  expired : Bool
  /-- Every frame parsed since `prepare_wait`, also after the function returned. -/
  parsed : List Parsed
  /-- What the function returned. -/
  result : Option Ret
  deriving DecidableEq

/-- What a thread is doing. -/
structure Local where
  /-- Its request. -/
  wait : Option ℕ
  /-- Its call of `setup_mode`. -/
  setup : Option ℕ

/-- One motor's fields and locks, its line, and a record of what was asked and answered. -/
structure State where
  vars : MotorVars
  /-- The owner of the recursive mutex and how often it holds it. -/
  commandMutex : Option (ℕ × ℕ)
  motorMutex : Option ℕ
  /-- The frames transmitted with `SUCCESS`; a frame's number is its place. -/
  sent : List (Fn × CanFrame)
  /-- How many of them have left the line to the motor, lost or received. -/
  arrived : ℕ
  received : List ℕ
  /-- The frames on the way from the motor. -/
  replies : List Reply
  waits : ℕ → Wait
  /-- The number of requests. -/
  next : ℕ
  locals : ℕ → Local
  /-- The threads that `check_overrun` let pass and that have not transmitted yet. -/
  reserved : List ℕ
  /-- The frames of `send_*` transmitted with `SUCCESS` that have no reply of their own. -/
  unanswered : List ℕ
  /-- `process_frame` has found the counter not positive and not reset it yet. -/
  clearing : Bool
  /-- The number of `setup_mode` calls. -/
  setups : ℕ
  /-- The frames `setup_mode` calls transmitted with `SUCCESS`. -/
  setupWrites : List (ℕ × CanFrame)
  /-- The `setup_mode` calls that have returned. -/
  setupsReturned : List ℕ

namespace State

/-- One request changes. -/
def withWait (s : State) (i : ℕ) (f : Wait → Wait) : State :=
  { s with waits := Function.update s.waits i (f (s.waits i)) }

/-- The request of thread `t`, if it has one, changes. -/
def withWaitOf (s : State) (t : ℕ) (f : Wait → Wait) : State :=
  { s with waits := fun i => if (s.locals t).wait = some i then f (s.waits i) else s.waits i }

/-- What one thread is doing changes. -/
def withLocal (s : State) (t : ℕ) (f : Local → Local) : State :=
  { s with locals := Function.update s.locals t (f (s.locals t)) }

/-- The motor's fields change. -/
def withVars (s : State) (f : MotorVars → MotorVars) : State := { s with vars := f s.vars }

/-- Every request sees the frame. -/
def recordParsed (s : State) (reply : Reply) : State :=
  { s with waits := fun i =>
      let w := s.waits i
      if i < s.next then { w with parsed := w.parsed ++ [⟨reply, !w.expired⟩] } else w }

/-- The frame goes on the line; the record of it. -/
def recordSent (s : State) (t : ℕ) (fn : Fn) (frame : CanFrame) : State :=
  { s with
    sent := s.sent ++ [(fn, frame)]
    unanswered := if fn.isSend then s.unanswered ++ [s.sent.length] else s.unanswered
    setupWrites :=
      match (s.locals t).setup with
      | none => s.setupWrites
      | some c => s.setupWrites ++ [(c, frame)] }

/-- The thread's reservation is used up. -/
def release (s : State) (t : ℕ) (fn : Fn) : State :=
  { s with reserved := if fn.isSend then s.reserved.erase t else s.reserved }

/-- The thread's request is over, and its call of `setup_mode` if that is what returns. -/
def close (s : State) (t : ℕ) (fn : Fn) : State :=
  if fn = .setupMode then
    { s.withLocal t (fun l => { l with wait := none, setup := none }) with
      setupsReturned := s.setupsReturned ++ (s.locals t).setup.toList }
  else s.withLocal t fun l => { l with wait := none }

end State

/-- A place of the record that no request has taken. -/
def noWait : Wait where
  thread := 0
  fn := .enable
  expected := .info
  tag := none
  started := false
  expired := false
  parsed := []
  result := none

/-- The motor as constructed, nothing sent and nothing asked. -/
def Motor.initialState (m : Motor) : State where
  vars := m.initialVars
  commandMutex := none
  motorMutex := none
  sent := []
  arrived := 0
  received := []
  replies := []
  waits _ := noWait
  next := 0
  locals _ := ⟨none, none⟩
  reserved := []
  unanswered := []
  clearing := false
  setups := 0
  setupWrites := []
  setupsReturned := []

/-! ### Actions -/

/-- What the transport answers. -/
inductive Choice where
  | go
  | connected (b : Bool)
  | transmitted (r : Result)

/-- What an action of thread `t` answers and leaves, `none` while it is blocked. -/
def Motor.perform (m : Motor) (t : ℕ) : (a : Action) → Choice → State → Option (a.Res × State)
  | .enter fn, _, s =>
      if fn = .setupMode then
        some ((), { s.withLocal t (fun l => { l with wait := none, setup := some s.setups }) with
          setups := s.setups + 1 })
      else some ((), s.withLocal t fun l => { l with wait := none })
  | .leave fn ret, _, s =>
      some ((), (s.withWaitOf t fun w => { w with result := some ret }).close t fn)
  | .lockCommand, _, s =>
      match s.commandMutex with
      | none => some ((), { s with commandMutex := some (t, 1) })
      | some (u, n) =>
          if u = t then some ((), { s with commandMutex := some (t, n + 1) }) else none
  | .unlockCommand, _, s =>
      match s.commandMutex with
      | none => none
      | some (u, n) =>
          if u = t then
            some ((), { s with commandMutex := if n = 1 then none else some (t, n - 1) })
          else none
  | .lockMotor, _, s =>
      if s.motorMutex = none then some ((), { s with motorMutex := some t }) else none
  | .unlockMotor, _, s =>
      if s.motorMutex = some t then some ((), { s with motorMutex := none }) else none
  | .isConnected, .connected b, s => some (b, s)
  | .isConnected, _, _ => none
  | .transmit fn frame, .transmitted r, s =>
      if r = .success then
        let sent := (s.recordSent t fn frame).withWaitOf t fun w =>
          { w with tag := some s.sent.length }
        some (r, sent.release t fn)
      else some (r, s.release t fn)
  | .transmit _ _, _, _ => none
  | .prepare fn expectedType, _, s =>
      let s := s.withVars fun v =>
        { v with expectedResponseType := expectedType, responseReceived := false }
      let s := s.withWait s.next fun _ =>
        { noWait with thread := t, fn := fn, expected := expectedType }
      some ((), { s.withLocal t (fun l => { l with wait := some s.next }) with next := s.next + 1 })
  | .startWait _, _, s =>
      let s := s.withWaitOf t fun w => { w with started := true }
      if s.vars.responseReceived then some (true, s)
      else some (false, { s with motorMutex := none })
  | .wake, _, s =>
      if s.motorMutex = none then
        if s.vars.responseReceived then some (true, { s with motorMutex := some t })
        else
          match (s.locals t).wait with
          | none => none
          | some i =>
              if (s.waits i).expired then some (false, { s with motorMutex := some t }) else none
      else none
  | .readParam, _, s =>
      some ((s.vars.status.readParamIndex, s.vars.status.readParamPayload), s)
  | .parse reply, _, s =>
      match m.protocol.parseFeedback reply.frame s.vars.status m.profile with
      | some status =>
          some (true, (s.withVars fun v =>
            { v with status := { status with isConnected := true } }).recordParsed reply)
      | none => some (false, s)
  | .fetchAdd, _, s =>
      let pending := s.vars.unacknowledgedCommands + 1
      some (pending, { s.withVars (fun v => { v with unacknowledgedCommands := pending }) with
        reserved := if m.overrunLimit.slt pending then s.reserved else t :: s.reserved })
  | .fetchSub reply, _, s =>
      let prev := s.vars.unacknowledgedCommands
      some (prev, { s.withVars (fun v => { v with unacknowledgedCommands := prev - 1 }) with
        unanswered :=
          match reply.answers with
          | none => s.unanswered
          | some n => s.unanswered.erase n
        clearing := prev.sle 0 })
  | .store value, _, s =>
      -- Of the two stores, the one of `process_frame` is made under `motor_mutex_`.
      some ((), { s.withVars (fun v => { v with unacknowledgedCommands := value }) with
        clearing := s.clearing && s.motorMutex != some t })
  | .expectedType, _, s => some (s.vars.expectedResponseType, s)
  | .notify, _, s => some ((), s.withVars fun v => { v with responseReceived := true })
  | .countUnknown, _, s =>
      some ((), s.withVars fun v =>
        { v with status :=
          { v.status with unknownFrameCount := v.status.unknownFrameCount + 1 } })
  | .undefined, _, _ => none

/-! ### What an action can do -/

/-- Asking the transport changes nothing. -/
theorem perform_isConnected {m : Motor} {t : ℕ} {ch : Choice} {s s' : State} {b : Bool}
    (h : m.perform t .isConnected ch s = some (b, s')) : s' = s := by
  cases ch with
  | connected b =>
      obtain ⟨-, rfl⟩ := Prod.mk.inj (Option.some.inj h)
      rfl
  | go => cases h
  | transmitted r => cases h

/-- A frame goes out or not, as the transport answers; its slot is released either way. -/
theorem perform_transmit {m : Motor} {t : ℕ} {fn : Fn} {frame : CanFrame} {ch : Choice}
    {s s' : State} {r : Result} (h : m.perform t (.transmit fn frame) ch s = some (r, s')) :
    (r = .success ∧ s' = ((s.recordSent t fn frame).withWaitOf t fun w =>
        { w with tag := some s.sent.length }).release t fn) ∨
      (r ≠ .success ∧ s' = s.release t fn) := by
  cases ch with
  | go => cases h
  | connected b => cases h
  | transmitted v =>
      simp only [Motor.perform] at h
      split_ifs at h with hv
      · obtain ⟨rfl, rfl⟩ := Prod.mk.inj (Option.some.inj h)
        exact Or.inl ⟨hv, rfl⟩
      · obtain ⟨rfl, rfl⟩ := Prod.mk.inj (Option.some.inj h)
        exact Or.inr ⟨hv, rfl⟩

/-- The record of the run is as before, and so is the counter. -/
structure SameRecord (s s' : State) : Prop where
  counter : s'.vars.unacknowledgedCommands = s.vars.unacknowledgedCommands
  sent : s'.sent = s.sent
  arrived : s'.arrived = s.arrived
  received : s'.received = s.received
  waits : s'.waits = s.waits
  next : s'.next = s.next
  locals : s'.locals = s.locals
  reserved : s'.reserved = s.reserved
  unanswered : s'.unanswered = s.unanswered
  clearing : s'.clearing = s.clearing
  setups : s'.setups = s.setups
  setupWrites : s'.setupWrites = s.setupWrites
  setupsReturned : s'.setupsReturned = s.setupsReturned

/-- The actions that change the record, each with what it leaves. -/
inductive Effect (m : Motor) (t : ℕ) (s : State) : Action → State → Prop where
  | enterSetup : Effect m t s (.enter .setupMode)
      { s.withLocal t (fun l => { l with wait := none, setup := some s.setups }) with
        setups := s.setups + 1 }
  | enter (fn : Fn) (hfn : fn ≠ .setupMode) : Effect m t s (.enter fn)
      (s.withLocal t fun l => { l with wait := none })
  | leave (fn : Fn) (ret : Ret) : Effect m t s (.leave fn ret)
      ((s.withWaitOf t fun w => { w with result := some ret }).close t fn)
  | sent (fn : Fn) (frame : CanFrame) : Effect m t s (.transmit fn frame)
      (((s.recordSent t fn frame).withWaitOf t fun w =>
        { w with tag := some s.sent.length }).release t fn)
  | unsent (fn : Fn) (frame : CanFrame) : Effect m t s (.transmit fn frame) (s.release t fn)
  | prepare (fn : Fn) (expected : FrameType) : Effect m t s (.prepare fn expected)
      { (((s.withVars fun v =>
          { v with expectedResponseType := expected, responseReceived := false }).withWait s.next
            fun _ => { noWait with thread := t, fn := fn, expected := expected }).withLocal t
              fun l => { l with wait := some s.next }) with next := s.next + 1 }
  | startWait (timeoutMs : ℕ) (owner : Option ℕ) : Effect m t s (.startWait timeoutMs)
      { s.withWaitOf t (fun w => { w with started := true }) with motorMutex := owner }
  | parse (reply : Reply) (status : MotorStatus)
      (h : m.protocol.parseFeedback reply.frame s.vars.status m.profile = some status) :
      Effect m t s (.parse reply) ((s.withVars fun v =>
        { v with status := { status with isConnected := true } }).recordParsed reply)
  | fetchAdd : Effect m t s .fetchAdd
      { s.withVars (fun v => { v with unacknowledgedCommands := v.unacknowledgedCommands + 1 }) with
        reserved := if m.overrunLimit.slt (s.vars.unacknowledgedCommands + 1) then s.reserved
          else t :: s.reserved }
  | fetchSub (reply : Reply) : Effect m t s (.fetchSub reply)
      { s.withVars (fun v => { v with unacknowledgedCommands := v.unacknowledgedCommands - 1 }) with
        unanswered :=
          match reply.answers with
          | none => s.unanswered
          | some n => s.unanswered.erase n
        clearing := s.vars.unacknowledgedCommands.sle 0 }
  | store (value : BitVec 32) : Effect m t s (.store value)
      { s.withVars (fun v => { v with unacknowledgedCommands := value }) with
        clearing := s.clearing && s.motorMutex != some t }
  | other {a : Action} {s' : State} (h : SameRecord s s') : Effect m t s a s'

theorem SameRecord.rfl {s : State} : SameRecord s s := ⟨.refl _, .refl _, .refl _, .refl _,
  .refl _, .refl _, .refl _, .refl _, .refl _, .refl _, .refl _, .refl _, .refl _⟩

/-- **Every action** has one of these effects. -/
theorem perform_effect {m : Motor} {t : ℕ} {a : Action} {ch : Choice} {s s' : State} {r : a.Res}
    (h : m.perform t a ch s = some (r, s')) : Effect m t s a s' := by
  cases a with
  | enter fn =>
      simp only [Motor.perform] at h
      split_ifs at h with hfn
      · obtain ⟨-, rfl⟩ := Prod.mk.inj (Option.some.inj h)
        exact hfn ▸ .enterSetup
      · obtain ⟨-, rfl⟩ := Prod.mk.inj (Option.some.inj h)
        exact .enter fn hfn
  | leave fn ret =>
      obtain ⟨-, rfl⟩ := Prod.mk.inj (Option.some.inj h)
      exact .leave fn ret
  | transmit fn frame =>
      rcases perform_transmit h with ⟨-, rfl⟩ | ⟨-, rfl⟩
      · exact .sent fn frame
      · exact .unsent fn frame
  | prepare fn expected =>
      obtain ⟨-, rfl⟩ := Prod.mk.inj (Option.some.inj h)
      exact .prepare fn expected
  | startWait timeoutMs =>
      simp only [Motor.perform] at h
      split_ifs at h
      · obtain ⟨-, rfl⟩ := Prod.mk.inj (Option.some.inj h)
        exact .startWait timeoutMs s.motorMutex
      · obtain ⟨-, rfl⟩ := Prod.mk.inj (Option.some.inj h)
        exact .startWait timeoutMs none
  | parse reply =>
      simp only [Motor.perform] at h
      split at h
      next status hstatus =>
        obtain ⟨-, rfl⟩ := Prod.mk.inj (Option.some.inj h)
        exact .parse reply status hstatus
      next =>
        obtain ⟨-, rfl⟩ := Prod.mk.inj (Option.some.inj h)
        exact .other .rfl
  | fetchAdd =>
      obtain ⟨-, rfl⟩ := Prod.mk.inj (Option.some.inj h)
      exact .fetchAdd
  | fetchSub reply =>
      obtain ⟨-, rfl⟩ := Prod.mk.inj (Option.some.inj h)
      exact .fetchSub reply
  | store value =>
      obtain ⟨-, rfl⟩ := Prod.mk.inj (Option.some.inj h)
      exact .store value
  | isConnected =>
      obtain rfl := perform_isConnected h
      exact .other .rfl
  | undefined => cases h
  | lockCommand | unlockCommand | lockMotor | unlockMotor | wake | readParam | expectedType
  | notify | countUnknown =>
      -- A mutex, or a field of `MotorVars` that the record does not have.
      refine .other ?_
      simp only [Motor.perform] at h
      repeat' split at h
      all_goals cases h
      all_goals exact ⟨rfl, rfl, rfl, rfl, rfl, rfl, rfl, rfl, rfl, rfl, rfl, rfl, rfl⟩

/-- What a step of thread `t` to a state with `next` requests does to request `i`. -/
inductive Change (s : State) (t i next : ℕ) : Action → Wait → Prop where
  | same (a : Action) : Change s t i next a (s.waits i)
  | prepare (fn : Fn) (expected : FrameType) (hi : i < next) :
      Change s t i next (.prepare fn expected)
        { noWait with thread := t, fn := fn, expected := expected }
  | transmit (fn : Fn) (frame : CanFrame) (hi : (s.locals t).wait = some i) :
      Change s t i next (.transmit fn frame) { s.waits i with tag := some s.sent.length }
  | startWait (timeoutMs : ℕ) : Change s t i next (.startWait timeoutMs)
      { s.waits i with started := true }
  | parse (reply : Reply) (hi : i < s.next) : Change s t i next (.parse reply)
      { s.waits i with parsed := (s.waits i).parsed ++ [⟨reply, !(s.waits i).expired⟩] }
  | leave (fn : Fn) (ret : Ret) (hi : (s.locals t).wait = some i) :
      Change s t i next (.leave fn ret) { s.waits i with result := some ret }

section

variable {m : Motor} {t : ℕ} {s s' : State} {a : Action}

@[simp] theorem close_waits (s : State) (t : ℕ) (fn : Fn) : (s.close t fn).waits = s.waits := by
  unfold State.close
  split_ifs <;> rfl

theorem withWaitOf_change {f : Wait → Wait} {i next : ℕ}
    (h : (s.locals t).wait = some i → Change s t i next a (f (s.waits i))) :
    Change s t i next a ((s.withWaitOf t f).waits i) := by
  simp only [State.withWaitOf]
  split_ifs with hi
  · exact h hi
  · exact .same a

theorem Effect.change (h : Effect m t s a s') (i : ℕ) :
    Change s t i s'.next a (s'.waits i) := by
  cases h with
  | leave fn ret =>
      rw [close_waits]
      exact withWaitOf_change fun hi => Change.leave fn ret hi
  | sent fn frame =>
      have h : Change s t i s.next (.transmit fn frame) ((s.withWaitOf t fun w =>
          { w with tag := some s.sent.length }).waits i) :=
        withWaitOf_change fun hi => Change.transmit fn frame hi
      exact h
  | startWait timeoutMs owner =>
      have h : Change s t i s.next (.startWait timeoutMs) ((s.withWaitOf t fun w =>
          { w with started := true }).waits i) :=
        withWaitOf_change fun _ => Change.startWait timeoutMs
      exact h
  | prepare fn expected =>
      by_cases hi : i = s.next
      · subst hi
        simpa [State.withLocal, State.withWait, State.withVars] using
          Change.prepare fn expected (Nat.lt_succ_self _)
      · simpa [State.withLocal, State.withWait, State.withVars, hi] using
          Change.same (.prepare fn expected)
  | parse reply status hstatus =>
      by_cases hi : i < s.next
      · simpa [State.recordParsed, State.withVars, hi] using Change.parse reply hi
      · simpa [State.recordParsed, State.withVars, hi] using Change.same (.parse reply)
  | other hsame => exact hsame.waits ▸ .same a
  | _ => exact .same _

theorem close_received (s : State) (t : ℕ) (fn : Fn) : (s.close t fn).received = s.received := by
  unfold State.close
  split_ifs <;> rfl

/-- Threads do not reach what the motor received. -/
theorem perform_received {ch : Choice} {r : a.Res} (h : m.perform t a ch s = some (r, s')) :
    s'.received = s.received := by
  cases perform_effect h with
  | other hsame => exact hsame.received
  | leave fn ret => exact close_received _ _ _
  | _ => rfl

end

/-! ### Environment -/

/-- What the line, the motor and the clock do. -/
inductive BusEvent where
  /-- The motor receives the next frame on the line and sends at most one reply. -/
  | deliver (answer : Option CanFrame)
  /-- The next frame on the line is lost. -/
  | lose
  /-- The next frame on the way back is lost. -/
  | loseReply
  | unsolicited (frame : CanFrame)
  /-- The timeout of a request passes. -/
  | expire (i : ℕ)

/-- The state after it, `none` where it cannot happen. -/
def State.env (e : BusEvent) (s : State) : Option State :=
  match e with
  | .deliver answer =>
      if s.arrived < s.sent.length then
        some { s with
          arrived := s.arrived + 1
          received := s.arrived :: s.received
          replies := s.replies ++ answer.toList.map fun frame => ⟨frame, some s.arrived⟩ }
      else none
  | .lose => if s.arrived < s.sent.length then some { s with arrived := s.arrived + 1 } else none
  | .loseReply => some { s with replies := s.replies.tail }
  | .unsolicited frame => some { s with replies := s.replies ++ [⟨frame, none⟩] }
  | .expire i =>
      if i < s.next ∧ (s.waits i).started then
        some (s.withWait i fun w => { w with expired := true })
      else none

/-- A thread calls a function; the receive thread takes the next frame. -/
def State.call (op : Op) (s : State) : Option State :=
  match op with
  | .processFrame reply =>
      if s.replies.head? = some reply then some { s with replies := s.replies.tail } else none
  | _ => some s

/-- The environment changes the bus, or ends the time of a request. -/
theorem env_effect {e : BusEvent} {s s' : State} (h : s.env e = some s') :
    (∃ arrived received replies, s' =
        { s with arrived := arrived, received := received, replies := replies }) ∨
      ∃ i, (s.waits i).started = true ∧ s' = s.withWait i fun w => { w with expired := true } := by
  cases e with
  | deliver answer =>
      simp only [State.env] at h
      split_ifs at h
      exact .inl ⟨_, _, _, (Option.some.inj h).symm⟩
  | lose =>
      simp only [State.env] at h
      split_ifs at h
      exact .inl ⟨_, _, _, (Option.some.inj h).symm⟩
  | loseReply => exact .inl ⟨_, _, _, (Option.some.inj h).symm⟩
  | unsolicited frame => exact .inl ⟨_, _, _, (Option.some.inj h).symm⟩
  | expire i =>
      simp only [State.env] at h
      split_ifs at h with hi
      exact .inr ⟨i, hi.2, (Option.some.inj h).symm⟩

/-- A call changes the frames on their way at most. -/
theorem call_effect {op : Op} {s s' : State} (h : s.call op = some s') :
    ∃ replies, s' = { s with replies := replies } := by
  cases op with
  | processFrame reply =>
      simp only [State.call] at h
      split_ifs at h
      exact ⟨_, (Option.some.inj h).symm⟩
  | _ => exact ⟨_, (Option.some.inj h).symm⟩

theorem call_vars {op : Op} {s s' : State} (h : s.call op = some s') : s'.vars = s.vars := by
  obtain ⟨replies, rfl⟩ := call_effect h
  rfl

theorem env_vars {e : BusEvent} {s s' : State} (h : s.env e = some s') : s'.vars = s.vars := by
  rcases env_effect h with ⟨arrived, received, replies, rfl⟩ | ⟨i, -, rfl⟩ <;> rfl

/-- The threads on one `Motor`, and its bus. -/
@[reducible] def Motor.system (m : Motor) : System where
  Act := Action
  Res := Action.Res
  State := State
  Choice := Choice
  Op := Op
  Env := BusEvent
  perform := m.perform
  body := m.body
  call _ := State.call
  env := State.env

/-- Every thread idle, the object as constructed. -/
abbrev Motor.initial (m : Motor) : Config m.system := start m.initialState

/-! ### Schedules -/

/-- A motor to run schedules on. -/
def Motor.sample (p : Protocol) : Motor where
  motorId := 1
  hostId := 0
  profile := ⟨.fin 17, .fin 50⟩
  protocolType := p
  overrunLimit := 1

/-- A frame from that motor under the private protocol, its payload zero. -/
def sampleReply (type : FrameType) : CanFrame := rsHwCreateFrame (rsHwPackCanId type 0 1)

/-- A run of the sample motor. -/
abbrev Schedule (p : Protocol) := List (Event (Motor.sample p).system)

section

variable {p : Protocol}

/-- Thread `t` performs `n` actions that ask the transport nothing. -/
def go (t n : ℕ) : Schedule p := List.replicate n (.step t Choice.go)

/-- The transport is connected. -/
def up (t : ℕ) : Schedule p := [.step t (Choice.connected true)]

/-- The transport takes the frame. -/
def out (t : ℕ) : Schedule p := [.step t (Choice.transmitted .success)]

/-- `write_parameter_raw`, from call to return. -/
def writing (t : ℕ) : Schedule p := go t 2 ++ up t ++ out t ++ go t 2

/-- A `send_*` function that passes the overrun check, from call to return. -/
def sending (t : ℕ) : Schedule p := go t 1 ++ up t ++ go t 1 ++ out t ++ go t 1

/-- A command that waits, from its call until it sleeps. -/
def asking (t : ℕ) : Schedule p := go t 2 ++ up t ++ go t 3 ++ out t ++ go t 2

/-- The receive thread takes the next frame and performs `n` actions. -/
def taking (t n : ℕ) (reply : Reply) : Schedule p := .call t (Op.processFrame reply) :: go t n

end

end Robstride
