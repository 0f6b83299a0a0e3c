import Robstride.Sdk.Motor

/-!
# Motor — Programs

What the programs of `Sdk/Motor.lean` may perform, and the traces on which they return.

`Within fns` is the set of actions of command code that are performed by one of the functions
`fns`; a call of a function performs actions of that function and of the functions it runs
(`body_within`).  Only `process_frame` parses a frame, and only one that it accepts
(`processFrame_parses`).
-/

namespace Robstride

open Support Support.Prog

/-! ### Who performs what -/

/-- The function that performs the action, where the action names one. -/
def Action.fn : Action → Option Fn
  | .enter fn | .leave fn _ | .transmit fn _ | .prepare fn _ => some fn
  | _ => none

/-- The actions of `process_frame` alone. -/
def Action.OfFrame : Action → Prop
  | .parse _ | .fetchSub _ | .expectedType | .notify | .countUnknown => True
  | _ => False

/-- An action of command code, by one of the functions. -/
def Within (fns : Fn → Prop) (a : Action) : Prop := ¬ a.OfFrame ∧ ∀ fn ∈ a.fn, fns fn

/-- Such an action inside a function. -/
def Inside (fns : Fn → Prop) (a : Action) : Prop :=
  Within fns a ∧ ∀ fn, a ≠ .enter fn ∧ ∀ ret, a ≠ .leave fn ret

/-- A call of the first function may run the second. -/
def Fn.Runs (fn fn' : Fn) : Prop :=
  fn' = fn ∨ fn.isSend = true ∧ fn' = .stop ∨
    (fn = .setupMode ∨ fn = .stopPpMode) ∧ fn' = .writeParameterRaw

/-- The function that the operation calls. -/
def Op.fn : Op → Option Fn
  | .enable => some .enable
  | .stop => some .stop
  | .clearError => some .clearError
  | .ping => some .ping
  | .setZero => some .setZero
  | .sendMitControl _ _ _ _ _ => some .sendMitControl
  | .sendCurrentControl _ => some .sendCurrentControl
  | .sendVelocityControl _ => some .sendVelocityControl
  | .sendPositionControl _ => some .sendPositionControl
  | .setupMode _ _ _ _ => some .setupMode
  | .stopPpMode => some .stopPpMode
  | .writeParameterRaw _ _ => some .writeParameterRaw
  | .readParameterRaw paramId => some (.readParameterRaw paramId)
  | .processFrame _ => none

section Within

variable {fns : Fn → Prop}

/-- An action by no function of its own. -/
theorem within_of {a : Action} (h : ¬ a.OfFrame) (hfn : a.fn = none) : Within fns a :=
  ⟨h, fun fn hmem => by rw [hfn] at hmem; cases hmem⟩

/-- An action by one of the functions. -/
theorem within_fn {a : Action} {fn : Fn} (h : ¬ a.OfFrame) (hfn : a.fn = some fn) (hfns : fns fn) :
    Within fns a :=
  ⟨h, fun fn' hmem => by rw [hfn] at hmem; cases hmem; exact hfns⟩

/-- A recorded body, by one of the functions. -/
theorem recorded_within {fn : Fn} (hfn : fns fn) {body : Cmd Result} (h : body.All (Within fns)) :
    (recorded fn body).All (Within fns) :=
  .bind (.perform (within_fn id rfl hfn)) fun _ => .bind h fun _ =>
    .bind (.perform (within_fn id rfl hfn)) fun _ => trivial

/-- An action that begins and ends no call. -/
theorem inside_of {a : Action} (h : ¬ a.OfFrame) (hfn : a.fn = none) : Inside fns a := by
  refine ⟨within_of h hfn, fun fn => ⟨?_, fun ret => ?_⟩⟩ <;> rintro rfl <;> cases hfn

/-- A body under `command_mutex_`. -/
theorem withCommandMutex_inside {α : Type} {body : Cmd α} (h : body.All (Inside fns)) :
    (withCommandMutex body).All (Inside fns) :=
  .bind (.perform (inside_of id rfl)) fun _ => .bind h fun _ =>
    .bind (.perform (inside_of id rfl)) fun _ => trivial

/-- The test for the connection. -/
theorem isConnected_inside : isConnected.All (Inside fns) := .perform (inside_of id rfl)

/-- `prepare_wait` of one of the functions. -/
theorem prepareWait_inside {fn : Fn} (hfn : fns fn) (expected : FrameType) :
    (prepareWait fn expected).All (Inside fns) :=
  .bind (.perform (inside_of id rfl)) fun _ =>
    .bind (.perform ⟨within_fn id rfl hfn, fun _ => ⟨nofun, nofun⟩⟩) fun _ =>
      .perform (inside_of id rfl)

/-- A transmit of one of the functions. -/
theorem transmit_inside {fn : Fn} (hfn : fns fn) (frame : CanFrame) :
    (transmit fn frame).All (Inside fns) :=
  .perform ⟨within_fn id rfl hfn, fun _ => ⟨nofun, nofun⟩⟩

/-- The wait. -/
theorem waitForResponse_inside (timeoutMs : ℕ) : (waitForResponse timeoutMs).All (Inside fns) := by
  refine .bind (.perform (inside_of id rfl)) fun _ => .bind (.perform (inside_of id rfl))
    fun ready => .bind ?_ fun _ => .bind (.perform (inside_of id rfl)) fun _ => trivial
  cases ready with
  | true => trivial
  | false => exact .perform (inside_of id rfl)

/-- What a request does under `command_mutex_`. -/
def Motor.requestBody (fn : Fn) (frame : CanFrame) (expected : FrameType) (timeoutMs : ℕ)
    (failed : Result → Result) : Cmd Result := do
  if ← isConnected then
    prepareWait fn expected
    let sent ← transmit fn frame
    if sent = .success then waitForResponse timeoutMs else return failed sent
  else return .errNotConnected

/-- What a synchronous command does under `command_mutex_`. -/
theorem requestBody_inside {fn : Fn} (hfn : fns fn) (frame : CanFrame) (expected : FrameType)
    (timeoutMs : ℕ) (failed : Result → Result) :
    (Motor.requestBody fn frame expected timeoutMs failed).All (Inside fns) := by
  refine .bind isConnected_inside fun connected => ?_
  split_ifs
  · refine .bind (prepareWait_inside hfn expected) fun _ => .bind (transmit_inside hfn frame)
      fun sent => ?_
    split_ifs
    · exact waitForResponse_inside timeoutMs
    · trivial
  · trivial

/-- A synchronous command acts as itself. -/
theorem request_within {fn : Fn} (hfn : fns fn) (frame : CanFrame) (expected : FrameType)
    (timeoutMs : ℕ) (failed : Result → Result) :
    (Motor.request fn frame expected timeoutMs failed).All (Within fns) :=
  recorded_within hfn
    ((withCommandMutex_inside (requestBody_inside hfn frame expected timeoutMs failed)).mono
      fun _ h => h.1)

/-- `check_overrun` acts as a stop, too. -/
theorem checkOverrun_within {m : Motor} (hstop : fns .stop) : m.checkOverrun.All (Within fns) := by
  refine .bind (.perform (within_of id rfl)) fun pending => ?_
  split_ifs
  · exact .bind (.perform (within_of id rfl)) fun _ =>
      .bind (request_within hstop _ _ _ _) fun _ => trivial
  · trivial

/-- A control command acts as itself and as a stop. -/
theorem send_within {m : Motor} {fn : Fn} (hfn : fns fn) (hstop : fns .stop)
    (frame : Option CanFrame) : (m.send fn frame).All (Within fns) := by
  refine recorded_within hfn (.bind (isConnected_inside.mono fun _ h => h.1) fun connected => ?_)
  split_ifs
  · refine .bind (checkOverrun_within hstop) fun passed => ?_
    split_ifs
    · cases frame with
      | none => exact ⟨within_of id rfl, fun r => r.elim⟩
      | some frame => exact (transmit_inside hfn frame).mono fun _ h => h.1
    · trivial
  · trivial

/-- A write acts as itself. -/
theorem writeParameterRaw_within {m : Motor} (hfn : fns .writeParameterRaw) (paramId : BitVec 16)
    (rawPayload : BitVec 32) : (m.writeParameterRaw paramId rawPayload).All (Within fns) := by
  refine recorded_within hfn (All.mono (withCommandMutex_inside
    (.bind isConnected_inside fun connected => ?_)) fun _ h => h.1)
  split_ifs
  · exact transmit_inside hfn _
  · trivial

/-- What `read_parameter_raw` does under `command_mutex_`. -/
def Motor.readBody (m : Motor) (paramId : BitVec 16) : Cmd (Option (BitVec 32)) := do
  if ← isConnected then
    prepareWait (.readParameterRaw paramId) .readParam
    let sent ← transmit (.readParameterRaw paramId)
      (m.protocol.encodeReadParam m.motorId m.hostId paramId)
    if sent = .success then
      let waited ← waitForResponse 100
      if waited = .success then
        lockMotor
        let (index, payload) ← readParam
        unlockMotor
        return if index = paramId then some payload else none
      else return none
    else return none
  else return none

/-- A read is its body under `command_mutex_`, between its records. -/
theorem readParameterRaw_eq (m : Motor) (paramId : BitVec 16) :
    m.readParameterRaw paramId = enter (.readParameterRaw paramId) >>= fun _ =>
      withCommandMutex (m.readBody paramId) >>= fun value =>
        leave (.readParameterRaw paramId) (.value value) >>= fun _ => pure value := rfl

/-- That body begins and ends no call. -/
theorem readBody_inside {m : Motor} {paramId : BitVec 16} (hfn : fns (.readParameterRaw paramId)) :
    (m.readBody paramId).All (Inside fns) := by
  refine .bind isConnected_inside fun connected => ?_
  split_ifs
  · refine .bind (prepareWait_inside hfn _) fun _ => .bind (transmit_inside hfn _) fun sent => ?_
    split_ifs
    · refine .bind (waitForResponse_inside 100) fun waited => ?_
      split_ifs
      · exact .bind (.perform (inside_of id rfl)) fun _ => .bind (.perform (inside_of id rfl))
          fun _ => .bind (.perform (inside_of id rfl)) fun _ => trivial
      · trivial
    · trivial
  · trivial

/-- A read acts as itself. -/
theorem readParameterRaw_within {m : Motor} {paramId : BitVec 16}
    (hfn : fns (.readParameterRaw paramId)) : (m.readParameterRaw paramId).All (Within fns) :=
  .bind (.perform (within_fn id rfl hfn)) fun _ =>
    .bind ((withCommandMutex_inside (readBody_inside hfn)).mono fun _ h => h.1) fun _ =>
      .bind (.perform (within_fn id rfl hfn)) fun _ => trivial

/-- `setup_mode` acts as itself and as its writes. -/
theorem setupMode_within {m : Motor} (hfn : fns .setupMode) (hwrite : fns .writeParameterRaw)
    (mode : RunMode) (limit1 limit2 limit3 : CFloat) :
    (m.setupMode mode limit1 limit2 limit3).All (Within fns) := by
  have hnext : ∀ (p : Prop) [Decidable p] (param : TypedParam) (raw : BitVec 32) (ok : Result),
      ((if p then m.writeParameter param raw else pure ok : Cmd Result)).All (Within fns) := by
    intro p _ param raw ok
    split_ifs
    · exact writeParameterRaw_within hwrite _ _
    · trivial
  refine recorded_within hfn (.bind (writeParameterRaw_within hwrite _ _) fun written => ?_)
  split_ifs
  · cases mode with
    | operation | current | other _ _ => trivial
    | speed =>
        exact .bind (writeParameterRaw_within hwrite _ _) fun _ => .bind (hnext _ _ _ _) fun _ =>
          trivial
    | positionCsp => exact .bind (writeParameterRaw_within hwrite _ _) fun _ => trivial
    | position =>
        exact .bind (writeParameterRaw_within hwrite _ _) fun _ => .bind (hnext _ _ _ _) fun _ =>
          .bind (hnext _ _ _ _) fun _ => trivial
  · trivial

end Within

/-- The result of a function is dropped. -/
theorem drop_all {α : Type} {ok : Action → Prop} {p : Cmd α} (h : p.All ok) :
    (do let _ ← p : Cmd Unit).All ok := .bind h fun _ => trivial

/-- **A call performs** actions of the function called and of the functions it runs. -/
theorem body_within (m : Motor) (op : Op) {fn : Fn} (hop : op.fn = some fn) :
    (m.body op).All (Within fn.Runs) := by
  have hself : fn.Runs fn := .inl rfl
  have hstop : fn.isSend = true → fn.Runs .stop := fun h => .inr (.inl ⟨h, rfl⟩)
  cases op with
  | enable | stop | clearError | ping | setZero =>
      obtain rfl := Option.some.inj hop
      exact drop_all (request_within hself _ _ _ _)
  | sendMitControl _ _ _ _ _ | sendCurrentControl _ | sendVelocityControl _
  | sendPositionControl _ =>
      obtain rfl := Option.some.inj hop
      exact drop_all (send_within hself (hstop rfl) _)
  | setupMode mode limit1 limit2 limit3 =>
      obtain rfl := Option.some.inj hop
      exact drop_all (setupMode_within hself (.inr (.inr ⟨.inl rfl, rfl⟩)) mode _ _ _)
  | stopPpMode =>
      obtain rfl := Option.some.inj hop
      exact drop_all (recorded_within hself
        (writeParameterRaw_within (.inr (.inr ⟨.inr rfl, rfl⟩)) _ _))
  | writeParameterRaw paramId rawPayload =>
      obtain rfl := Option.some.inj hop
      exact drop_all (writeParameterRaw_within hself _ _)
  | readParameterRaw paramId =>
      obtain rfl := Option.some.inj hop
      exact drop_all (readParameterRaw_within hself)
  | processFrame reply => cases hop

/-- What `process_frame` may perform on the frame. -/
def Motor.Processes (m : Motor) (reply : Reply) (a : Action) : Prop :=
  a.fn = none ∧ ∀ reply', a = .parse reply' →
    reply' = reply ∧ m.protocol.isFeedbackFrame reply.frame m.motorId = true

/-- A frame is only parsed after it was accepted. -/
theorem processFrame_processes (m : Motor) (reply : Reply) :
    (m.processFrame reply).All (m.Processes reply) := by
  have hanswer : ∀ type : FrameType, (do
      let expected ← expectedType
      if type = expected then notify
      unlockMotor : Cmd Unit).All (m.Processes reply) := by
    intro type
    refine .bind (.perform ⟨rfl, nofun⟩) fun expected => ?_
    split_ifs
    · exact .bind (.perform ⟨rfl, nofun⟩) fun _ => .perform ⟨rfl, nofun⟩
    · exact .perform ⟨rfl, nofun⟩
  unfold Motor.processFrame
  split_ifs with haccepted
  · refine .bind (.perform ⟨rfl, nofun⟩) fun _ => .bind (.perform ⟨rfl, ?_⟩) fun parsed => ?_
    · exact fun reply' h => ⟨(Action.parse.inj h).symm, haccepted⟩
    · split_ifs
      · refine .bind (.perform ⟨rfl, nofun⟩) fun prev => ?_
        split_ifs
        · exact .bind (.perform ⟨rfl, nofun⟩) fun _ => hanswer _
        · exact hanswer _
      · exact .bind (.perform ⟨rfl, nofun⟩) fun _ => .perform ⟨rfl, nofun⟩
  · trivial

/-! ### Traces -/

/-- The actions that a call performed, with their answers. -/
abbrev CmdTrace := Trace Action Action.Res

/-- The lock first, the release last. -/
theorem withCommandMutex_trace {α : Type} {body : Cmd α} {tr : CmdTrace} {x : α}
    (h : After (withCommandMutex body) tr (.ret x)) :
    ∃ tr', tr = ⟨.lockCommand, ()⟩ :: tr' ++ [⟨.unlockCommand, ()⟩] ∧ After body tr' (.ret x) := by
  obtain ⟨tr₁, ⟨⟩, tr₂, rfl, hlock, h⟩ := after_bind_ret h
  obtain ⟨tr₃, y, tr₄, rfl, hbody, h⟩ := after_bind_ret h
  obtain ⟨tr₅, ⟨⟩, tr₆, rfl, hunlock, h⟩ := after_bind_ret h
  obtain ⟨rfl, rfl⟩ := after_ret h
  obtain rfl := after_perform hlock
  obtain rfl := after_perform hunlock
  exact ⟨tr₃, by simp, hbody⟩

/-- `prepare_wait` performs its three actions. -/
theorem prepareWait_trace {fn : Fn} {expected : FrameType} {tr : CmdTrace}
    (h : After (prepareWait fn expected) tr (.ret ())) :
    tr = [⟨.lockMotor, ()⟩, ⟨.prepare fn expected, ()⟩, ⟨.unlockMotor, ()⟩] := by
  obtain ⟨tr₁, ⟨⟩, tr₂, rfl, hlock, h⟩ := after_bind_ret h
  obtain ⟨tr₃, ⟨⟩, tr₄, rfl, hprepare, hunlock⟩ := after_bind_ret h
  obtain rfl := after_perform hlock
  obtain rfl := after_perform hprepare
  obtain rfl := after_perform hunlock
  rfl

/-- A look of `wait_for` at `response_received_`, and what it saw. -/
inductive Check : (Σ a : Action, a.Res) → Bool → Prop where
  | startWait (timeoutMs : ℕ) (b : Bool) : Check ⟨.startWait timeoutMs, b⟩ b
  | wake (b : Bool) : Check ⟨.wake, b⟩ b

/-- What `wait_for` does before its last look. -/
inductive BeforeCheck : CmdTrace → Prop where
  | locked : BeforeCheck [⟨.lockMotor, ()⟩]
  | slept (timeoutMs : ℕ) : BeforeCheck [⟨.lockMotor, ()⟩, ⟨.startWait timeoutMs, false⟩]

/-- Waiting ends with a last look, which decides the result. -/
theorem waitForResponse_trace {timeoutMs : ℕ} {tr : CmdTrace} {r : Result}
    (h : After (waitForResponse timeoutMs) tr (.ret r)) :
    ∃ tr' check received, tr = tr' ++ check :: [⟨.unlockMotor, ()⟩] ∧ BeforeCheck tr' ∧
      Check check received ∧ r = if received then .success else .errTimeout := by
  obtain ⟨tr₁, ⟨⟩, tr₂, rfl, hlock, h⟩ := after_bind_ret h
  obtain ⟨tr₃, ready, tr₄, rfl, hstart, h⟩ := after_bind_ret h
  obtain ⟨tr₅, received, tr₆, rfl, hwake, h⟩ := after_bind_ret h
  obtain ⟨tr₇, ⟨⟩, tr₈, rfl, hunlock, h⟩ := after_bind_ret h
  obtain ⟨rfl, rfl⟩ := after_ret h
  obtain rfl := after_perform hlock
  obtain rfl := after_perform hstart
  obtain rfl := after_perform hunlock
  cases ready with
  | true =>
      obtain ⟨rfl, rfl⟩ := after_ret hwake
      exact ⟨_, _, true, rfl, .locked, .startWait timeoutMs true, rfl⟩
  | false =>
      obtain rfl := after_perform hwake
      exact ⟨_, _, received, rfl, .slept timeoutMs, .wake received, rfl⟩

/-- What a request does up to its `transmit`, and then. -/
theorem ask_trace {α : Type} {fn : Fn} {expected : FrameType} {frame : CanFrame}
    {rest : Result → Cmd α} {tr : CmdTrace} {x : α}
    (h : After (do prepareWait fn expected; let sent ← transmit fn frame; rest sent) tr (.ret x)) :
    ∃ sent tr', tr = [⟨.lockMotor, ()⟩, ⟨.prepare fn expected, ()⟩, ⟨.unlockMotor, ()⟩,
        ⟨.transmit fn frame, sent⟩] ++ tr' ∧ After (rest sent) tr' (.ret x) := by
  obtain ⟨tr₁, ⟨⟩, tr₂, rfl, hprepare, hsend⟩ := after_bind_ret h
  obtain ⟨tr₃, sent, tr₄, rfl, htransmit, hrest⟩ := after_bind_ret hsend
  obtain rfl := prepareWait_trace hprepare
  obtain rfl := after_perform htransmit
  exact ⟨sent, tr₄, rfl, hrest⟩

/-- A function returns at its own `leave`, or comes to one in its body. -/
theorem recorded_leave {fn fn' : Fn} {body : Cmd Result} {tr : CmdTrace} {ret : Ret}
    {k : Unit → Cmd Result} (h : After (recorded fn body) tr (.act (.leave fn' ret) k)) :
    ∃ tr', tr = ⟨.enter fn, ()⟩ :: tr' ∧
      ((∃ r, fn' = fn ∧ ret = .result r ∧ After body tr' (.ret r)) ∨
        ∃ k', After body tr' (.act (.leave fn' ret) k')) := by
  rcases after_bind_act h with ⟨k', henter⟩ | ⟨tr₁, ⟨⟩, tr₂, rfl, henter, hrest⟩
  · cases henter with
    | cons henter => cases henter
  · obtain rfl := after_perform henter
    refine ⟨tr₂, rfl, ?_⟩
    rcases after_bind_act hrest with hbody | ⟨tr₃, r, tr₄, rfl, hbody, hlast⟩
    · exact .inr hbody
    · rcases after_bind_act hlast with ⟨k', hleave⟩ | ⟨tr₅, ⟨⟩, tr₆, rfl, -, hret⟩
      · cases hleave with
        | nil => exact .inl ⟨r, rfl, rfl, by rwa [List.append_nil]⟩
        | cons hleave => cases hleave
      · cases hret

/-- The traces of a request, and what it returns where it waited. -/
inductive Requests (fn : Fn) (frame : CanFrame) (expected : FrameType) :
    CmdTrace → Result → Prop where
  | refused (r : Result) : Requests fn frame expected
      [⟨.lockCommand, ()⟩, ⟨.isConnected, false⟩, ⟨.unlockCommand, ()⟩] r
  | unsent {sent : Result} (hsent : sent ≠ .success) (r : Result) :
      Requests fn frame expected [⟨.lockCommand, ()⟩, ⟨.isConnected, true⟩, ⟨.lockMotor, ()⟩,
        ⟨.prepare fn expected, ()⟩, ⟨.unlockMotor, ()⟩, ⟨.transmit fn frame, sent⟩,
        ⟨.unlockCommand, ()⟩] r
  | waited {tr : CmdTrace} (htr : BeforeCheck tr) {check : Σ a : Action, a.Res} {received : Bool}
      (hcheck : Check check received) :
      Requests fn frame expected ([⟨.lockCommand, ()⟩, ⟨.isConnected, true⟩, ⟨.lockMotor, ()⟩,
        ⟨.prepare fn expected, ()⟩, ⟨.unlockMotor, ()⟩, ⟨.transmit fn frame, .success⟩] ++ tr ++
          check :: [⟨.unlockMotor, ()⟩, ⟨.unlockCommand, ()⟩])
        (if received then .success else .errTimeout)

/-- A request transmits its own frame. -/
theorem Requests.transmits {fn fn' : Fn} {frame frame' : CanFrame} {expected : FrameType}
    {tr : CmdTrace} {r sent : Result} (h : Requests fn frame expected tr r)
    (hmem : ⟨.transmit fn' frame', sent⟩ ∈ tr) : fn' = fn ∧ frame' = frame := by
  cases h with
  | refused => simp at hmem
  | @unsent v hv =>
      have heq : (fn' = fn ∧ frame' = frame) ∧ sent = v := by simpa using hmem
      exact heq.1
  | waited htr hcheck =>
      have heq : (fn' = fn ∧ frame' = frame) ∧ sent = .success := by
        cases htr <;> cases hcheck <;> simpa using hmem
      exact heq.1

/-- A synchronous command under `command_mutex_` asks once. -/
theorem requestBody_trace {fn : Fn} {frame : CanFrame} {expected : FrameType} {timeoutMs : ℕ}
    {failed : Result → Result} {tr : CmdTrace} {r : Result}
    (h : After (withCommandMutex (Motor.requestBody fn frame expected timeoutMs failed)) tr
      (.ret r)) : Requests fn frame expected tr r := by
  obtain ⟨tr, rfl, hcore⟩ := withCommandMutex_trace h
  obtain ⟨tr₁, connected, tr₂, rfl, hconnected, hask⟩ := after_bind_ret hcore
  obtain rfl := after_perform hconnected
  cases connected with
  | false =>
      obtain ⟨rfl, rfl⟩ := after_ret hask
      exact .refused _
  | true =>
      obtain ⟨sent, tr₃, rfl, hrest⟩ := ask_trace hask
      by_cases hsent : sent = .success
      · subst hsent
        obtain ⟨tr₄, check, received, rfl, htr, hcheck, rfl⟩ := waitForResponse_trace hrest
        have hwaited : Requests fn frame expected _ _ := .waited htr hcheck
        simpa using hwaited
      · rw [if_neg hsent] at hrest
        obtain ⟨rfl, rfl⟩ := after_ret hrest
        exact .unsent hsent _

/-- What it performed before it returns. -/
theorem request_leave {fn fn' : Fn} {frame : CanFrame} {expected : FrameType} {timeoutMs : ℕ}
    {failed : Result → Result} {tr : CmdTrace} {r : Result} {k : Unit → Cmd Result}
    (h : After (Motor.request fn frame expected timeoutMs failed) tr
      (.act (.leave fn' (.result r)) k)) :
    fn' = fn ∧ ∃ tr', tr = ⟨.enter fn, ()⟩ :: tr' ∧ Requests fn frame expected tr' r := by
  obtain ⟨tr', rfl, ⟨r', rfl, hr, hbody⟩ | ⟨k', hbody⟩⟩ := recorded_leave h
  · obtain rfl := Ret.result.inj hr
    exact ⟨rfl, tr', rfl, requestBody_trace hbody⟩
  · have hinside : (withCommandMutex
        (Motor.requestBody fn frame expected timeoutMs failed)).All (Inside fun _ => True) :=
      withCommandMutex_inside (requestBody_inside trivial frame expected timeoutMs failed)
    exact absurd rfl (((hinside.at_act hbody).2 fn').2 _)

/-- The type of the frame that a synchronous command waits for. -/
def Motor.awaited (m : Motor) : Fn → Option FrameType
  | .enable | .stop | .clearError | .setZero => some .feedback
  | .ping => some m.protocol.pingResponseType
  | _ => none

/-- The result of a function is dropped. -/
theorem drop_act {α : Type} {p : Cmd α} {tr : CmdTrace} {a : Action} {k : a.Res → Cmd Unit}
    (h : After (do let _ ← p : Cmd Unit) tr (.act a k)) : ∃ k', After p tr (.act a k') := by
  rcases after_bind_act h with hp | ⟨tr₁, x, tr₂, rfl, -, hret⟩
  · exact hp
  · cases hret

/-- The stop of an overrun is the only function that `check_overrun` returns from. -/
theorem checkOverrun_leave {m : Motor} {fn : Fn} {tr : CmdTrace} {r : Result}
    {k : Unit → Cmd Bool} (h : After m.checkOverrun tr (.act (.leave fn (.result r)) k)) :
    ∃ tr₀ frame tr', tr = tr₀ ++ ⟨.enter .stop, ()⟩ :: tr' ∧
      Requests .stop frame .feedback tr' r := by
  rcases after_bind_act h with ⟨k', hadd⟩ | ⟨tr₁, pending, tr₂, rfl, -, h⟩
  · cases hadd with
    | cons hadd => cases hadd
  · split_ifs at h with hover
    · rcases after_bind_act h with ⟨k', hstore⟩ | ⟨tr₃, ⟨⟩, tr₄, rfl, -, h'⟩
      · cases hstore with
        | cons hstore => cases hstore
      · rcases after_bind_act h' with ⟨k', hstop⟩ | ⟨tr₅, _, tr₆, rfl, -, hret⟩
        · obtain ⟨rfl, tr', rfl, hrequest⟩ := request_leave hstop
          exact ⟨tr₁ ++ tr₃, _, tr', by rw [List.append_assoc], hrequest⟩
        · cases hret
    · cases h

/-- A control command returns from a synchronous command only inside `check_overrun`. -/
theorem send_leave {m : Motor} {fn fn' : Fn} (hne : fn' ≠ fn) {frame : Option CanFrame}
    {tr : CmdTrace} {r : Result} {k : Unit → Cmd Result}
    (h : After (m.send fn frame) tr (.act (.leave fn' (.result r)) k)) :
    ∃ tr₀ frame tr', tr = tr₀ ++ ⟨.enter .stop, ()⟩ :: tr' ∧
      Requests .stop frame .feedback tr' r := by
  obtain ⟨tr', rfl, ⟨r', hfn, -, -⟩ | ⟨k', hbody⟩⟩ := recorded_leave h
  · exact absurd hfn hne
  -- Before the check nothing returns, and after it only the frame is left to transmit.
  · rcases after_bind_act hbody with ⟨k', hconnected⟩ | ⟨tr₁, connected, tr₂, rfl, -, h⟩
    · cases hconnected with
      | cons hconnected => cases hconnected
    · cases connected with
      | false => cases h
      | true =>
          rcases after_bind_act h with ⟨k', hcheck⟩ | ⟨tr₃, passed, tr₄, rfl, -, h'⟩
          · obtain ⟨tr₀, stopFrame, tr', rfl, hrequest⟩ := checkOverrun_leave hcheck
            exact ⟨⟨.enter fn, ()⟩ :: tr₁ ++ tr₀, stopFrame, tr', by simp, hrequest⟩
          · cases passed with
            | false => cases h'
            | true =>
                cases frame with
                | none =>
                    cases h' with
                    | cons h' => contradiction
                | some frame =>
                    cases h' with
                    | cons h' => cases h'

/-- The four control commands have one body. -/
theorem body_send (m : Motor) {op : Op} {fn : Fn} (hop : op.fn = some fn)
    (hsend : fn.isSend = true) : ∃ frame, m.body op = m.send fn frame >>= fun _ => pure () := by
  cases op with
  | sendMitControl _ _ _ _ _ | sendCurrentControl _ | sendVelocityControl _
  | sendPositionControl _ =>
      obtain rfl := Option.some.inj hop
      exact ⟨_, rfl⟩
  | processFrame reply => cases hop
  | _ =>
      obtain rfl := Option.some.inj hop
      cases hsend

/-- The traces of a control command with the given frame, and what it returns: it finds the
transport not connected, passes the check and transmits its frame, or is refused and stops the
motor. -/
inductive Sends (m : Motor) (fn : Fn) (frame : Option CanFrame) : CmdTrace → Result → Prop where
  | unconnected : Sends m fn frame [⟨.isConnected, false⟩] .errNotConnected
  | admitted {pending : BitVec 32} (hpending : m.overrunLimit.slt pending = false)
      {out : CanFrame} (hframe : frame = some out) (sent : Result) : Sends m fn frame
        [⟨.isConnected, true⟩, ⟨.fetchAdd, pending⟩, ⟨.transmit fn out, sent⟩] sent
  | refused {pending : BitVec 32} (hpending : m.overrunLimit.slt pending = true) {tr : CmdTrace}
      {r : Result} (hstop : Requests .stop (m.protocol.encodeStop m.motorId m.hostId) .feedback tr r) :
      Sends m fn frame ([⟨.isConnected, true⟩, ⟨.fetchAdd, pending⟩, ⟨.store m.overrunLimit, ()⟩,
        ⟨.enter .stop, ()⟩] ++ tr ++ [⟨.leave .stop (.result r), ()⟩]) .errOverrun

/-- The record of the call first, that of the return last. -/
theorem recorded_trace {fn : Fn} {body : Cmd Result} {tr : CmdTrace} {r : Result}
    (h : After (recorded fn body) tr (.ret r)) :
    ∃ tr', tr = ⟨.enter fn, ()⟩ :: tr' ++ [⟨.leave fn (.result r), ()⟩] ∧
      After body tr' (.ret r) := by
  obtain ⟨tr₁, ⟨⟩, tr₂, rfl, henter, h⟩ := after_bind_ret h
  obtain ⟨tr₃, x, tr₄, rfl, hbody, h⟩ := after_bind_ret h
  obtain ⟨tr₅, ⟨⟩, tr₆, rfl, hleave, h⟩ := after_bind_ret h
  obtain ⟨rfl, rfl⟩ := after_ret h
  obtain rfl := after_perform henter
  obtain rfl := after_perform hleave
  exact ⟨tr₃, by simp, hbody⟩

/-- `check_overrun` counts, and over the limit it stores and stops. -/
theorem checkOverrun_trace {m : Motor} {tr : CmdTrace} {passed : Bool}
    (h : After m.checkOverrun tr (.ret passed)) :
    (∃ pending, m.overrunLimit.slt pending = false ∧ passed = true ∧ tr = [⟨.fetchAdd, pending⟩]) ∨
      ∃ pending tr' r, m.overrunLimit.slt pending = true ∧ passed = false ∧
        Requests .stop (m.protocol.encodeStop m.motorId m.hostId) .feedback tr' r ∧
          tr = [⟨.fetchAdd, pending⟩, ⟨.store m.overrunLimit, ()⟩, ⟨.enter .stop, ()⟩] ++ tr' ++
            [⟨.leave .stop (.result r), ()⟩] := by
  obtain ⟨tr₁, pending, tr₂, rfl, hadd, hcompare⟩ := after_bind_ret h
  obtain rfl := after_perform hadd
  cases hover : m.overrunLimit.slt pending with
  | false =>
      rw [hover, if_neg Bool.false_ne_true] at hcompare
      obtain ⟨rfl, rfl⟩ := after_ret hcompare
      exact .inl ⟨pending, hover, rfl, rfl⟩
  | true =>
      rw [hover, if_pos rfl] at hcompare
      obtain ⟨tr₃, ⟨⟩, tr₄, rfl, hstore, hstops⟩ := after_bind_ret hcompare
      obtain ⟨tr₅, r, tr₆, rfl, hstop, hlast⟩ := after_bind_ret hstops
      obtain ⟨rfl, rfl⟩ := after_ret hlast
      obtain rfl := after_perform hstore
      obtain ⟨tr', rfl, hbody⟩ := recorded_trace hstop
      exact .inr ⟨pending, tr', r, hover, rfl, requestBody_trace hbody, by simp⟩

/-- **A control command** from its call to its return. -/
theorem send_trace {m : Motor} {fn : Fn} {frame : Option CanFrame} {tr : CmdTrace} {r : Result}
    (h : After (m.send fn frame) tr (.ret r)) :
    ∃ tr', tr = ⟨.enter fn, ()⟩ :: tr' ++ [⟨.leave fn (.result r), ()⟩] ∧
      Sends m fn frame tr' r := by
  obtain ⟨tr', rfl, hbody⟩ := recorded_trace h
  refine ⟨tr', rfl, ?_⟩
  obtain ⟨tr₁, connected, tr₂, rfl, hconnected, hrest⟩ := after_bind_ret hbody
  obtain rfl := after_perform hconnected
  cases connected with
  | false =>
      obtain ⟨rfl, rfl⟩ := after_ret hrest
      exact .unconnected
  | true =>
      obtain ⟨tr₃, passed, tr₄, rfl, hcheck, hlast⟩ := after_bind_ret hrest
      rcases checkOverrun_trace hcheck with ⟨pending, hpending, rfl, rfl⟩ |
        ⟨pending, tr', r', hpending, rfl, hstop, rfl⟩
      · cases frame with
        | none =>
            cases hlast with
            | @cons a k r tr q hlast => exact r.elim
        | some out =>
            obtain rfl := after_perform hlast
            exact .admitted hpending rfl _
      · obtain ⟨rfl, rfl⟩ := after_ret hlast
        have hrefused : Sends m fn frame _ _ := .refused hpending hstop
        simpa using hrefused

/-- What returns in an operation is the function called, or one that it runs. -/
theorem leave_runs {m : Motor} {op : Op} {fn : Fn} {tr : CmdTrace} {ret : Ret}
    {k : Unit → Cmd Unit} (h : After (m.body op) tr (.act (.leave fn ret) k)) :
    ∃ fn₀, op.fn = some fn₀ ∧ fn₀.Runs fn := by
  cases hop : op.fn with
  | none =>
      cases op with
      | processFrame reply =>
          have hnone := ((processFrame_processes m reply).at_act h).1
          cases hnone
      | _ => cases hop
  | some fn₀ => exact ⟨fn₀, rfl, ((body_within m op hop).at_act h).2 fn rfl⟩

/-- Nothing but a call of it returns from a control command. -/
theorem leave_send {m : Motor} {op : Op} {fn : Fn} (hsend : fn.isSend = true) {tr : CmdTrace}
    {ret : Ret} {k : Unit → Cmd Unit} (h : After (m.body op) tr (.act (.leave fn ret) k)) :
    op.fn = some fn := by
  obtain ⟨fn₀, hop, rfl | ⟨-, rfl⟩ | ⟨-, rfl⟩⟩ := leave_runs h
  · exact hop
  · cases hsend
  · cases hsend

/-- A call of a control command, up to its return. -/
theorem body_send_trace {m : Motor} {op : Op} {fn : Fn} (hop : op.fn = some fn)
    (hsend : fn.isSend = true) {tr : CmdTrace} (h : After (m.body op) tr (.ret ())) :
    ∃ frame tr' r, tr = ⟨.enter fn, ()⟩ :: tr' ++ [⟨.leave fn (.result r), ()⟩] ∧
      Sends m fn frame tr' r := by
  obtain ⟨frame, hbody⟩ := body_send m hop hsend
  rw [hbody] at h
  obtain ⟨tr₁, r, tr₂, rfl, hsent, hret⟩ := after_bind_ret h
  obtain ⟨rfl, -⟩ := after_ret hret
  obtain ⟨tr', rfl, hsends⟩ := send_trace hsent
  exact ⟨frame, tr', r, by simp, hsends⟩

/-- **A synchronous command returns** at the end of one of its traces, also where it is the stop
of an overrun. -/
theorem command_leave {m : Motor} {op : Op} {fn : Fn} {expected : FrameType}
    (hfn : m.awaited fn = some expected) {tr : CmdTrace} {r : Result} {k : Unit → Cmd Unit}
    (h : After (m.body op) tr (.act (.leave fn (.result r)) k)) :
    ∃ tr₀ frame tr', tr = tr₀ ++ ⟨.enter fn, ()⟩ :: tr' ∧ Requests fn frame expected tr' r := by
  obtain ⟨fn₀, hop, rfl | ⟨hsend, rfl⟩ | ⟨-, rfl⟩⟩ := leave_runs h
  · -- The command was called itself.
    cases op with
    | enable | stop | clearError | ping | setZero =>
        obtain rfl := Option.some.inj hop
        obtain rfl := Option.some.inj hfn
        obtain ⟨k', h'⟩ := drop_act h
        obtain ⟨-, tr', rfl, hrequest⟩ := request_leave h'
        exact ⟨[], _, tr', rfl, hrequest⟩
    | processFrame reply => cases hop
    | _ =>
        obtain rfl := Option.some.inj hop
        cases hfn
  · -- It is the stop of a control command that found the counter over the limit.
    obtain rfl := Option.some.inj hfn
    obtain ⟨frame, hbody⟩ := body_send m hop hsend
    rw [hbody] at h
    obtain ⟨k', h'⟩ := drop_act h
    have hne : Fn.stop ≠ fn₀ := by
      rintro rfl
      cases hsend
    exact send_leave hne h'
  · cases hfn

/-- A read body looks at the status once, after a wait that succeeded, and returns what it saw; or it
returns nothing, and never looks. -/
theorem readBody_ret {m : Motor} {paramId : BitVec 16} {tr : CmdTrace} {x : Option (BitVec 32)}
    (h : After (m.readBody paramId) tr (.ret x)) :
    (x = none ∧ ∀ r, ⟨.readParam, r⟩ ∉ tr) ∨
      ∃ frame tr' check index payload, BeforeCheck tr' ∧ Check check true ∧
        x = (if index = paramId then some payload else none) ∧
        tr = [⟨.isConnected, true⟩] ++ ([⟨.lockMotor, ()⟩,
          ⟨.prepare (.readParameterRaw paramId) .readParam, ()⟩, ⟨.unlockMotor, ()⟩,
          ⟨.transmit (.readParameterRaw paramId) frame, .success⟩] ++
            (tr' ++ check :: [⟨.unlockMotor, ()⟩] ++
              [⟨.lockMotor, ()⟩, ⟨.readParam, (index, payload)⟩, ⟨.unlockMotor, ()⟩])) := by
  obtain ⟨tr₁, connected, tr₂, rfl, hconnected, hask⟩ := after_bind_ret h
  obtain rfl := after_perform hconnected
  cases connected with
  | false =>
      obtain ⟨rfl, rfl⟩ := after_ret hask
      exact .inl ⟨rfl, by simp⟩
  | true =>
      obtain ⟨sent, tr₃, rfl, hsent⟩ := ask_trace hask
      split_ifs at hsent with hsuccess
      · subst hsuccess
        obtain ⟨tr₄, waited, tr₅, rfl, hwait, hread⟩ := after_bind_ret hsent
        obtain ⟨tr', check, received, rfl, htr', hcheck, rfl⟩ := waitForResponse_trace hwait
        -- No look at the flag but a successful one leads to the read.
        cases received with
        | false =>
            obtain ⟨rfl, rfl⟩ := after_ret hread
            refine .inl ⟨rfl, fun r => ?_⟩
            cases htr' <;> cases hcheck <;> simp
        | true =>
            obtain ⟨tr₆, ⟨⟩, tr₇, rfl, hlock, hread'⟩ := after_bind_ret hread
            obtain ⟨tr₈, ⟨index, payload⟩, tr₉, rfl, hparam, hlast⟩ := after_bind_ret hread'
            obtain ⟨tr₁₀, ⟨⟩, tr₁₁, rfl, hunlock, hret⟩ := after_bind_ret hlast
            obtain ⟨rfl, hv⟩ := after_ret hret
            obtain rfl := after_perform hlock
            obtain rfl := after_perform hparam
            obtain rfl := after_perform hunlock
            exact .inr ⟨_, tr', check, index, payload, htr', hcheck, hv.symm, rfl⟩
      · obtain ⟨rfl, rfl⟩ := after_ret hsent
        exact .inl ⟨rfl, by simp⟩

/-- A read that returns a value found its flag set and the parameter's own index. -/
theorem readBody_trace {m : Motor} {paramId : BitVec 16} {v : BitVec 32} {tr : CmdTrace}
    (h : After (m.readBody paramId) tr (.ret (some v))) :
    ∃ frame tr' check, BeforeCheck tr' ∧ Check check true ∧
      tr = [⟨.isConnected, true⟩] ++ ([⟨.lockMotor, ()⟩,
        ⟨.prepare (.readParameterRaw paramId) .readParam, ()⟩, ⟨.unlockMotor, ()⟩,
        ⟨.transmit (.readParameterRaw paramId) frame, .success⟩] ++
          (tr' ++ check :: [⟨.unlockMotor, ()⟩] ++
            [⟨.lockMotor, ()⟩, ⟨.readParam, (paramId, v)⟩, ⟨.unlockMotor, ()⟩])) := by
  rcases readBody_ret h with ⟨hnone, -⟩ | ⟨frame, tr', check, index, payload, htr', hcheck, hv, rfl⟩
  · cases hnone
  · split_ifs at hv with hindex
    obtain rfl := Option.some.inj hv
    exact ⟨frame, tr', check, htr', hcheck, by rw [hindex]⟩

/-- **A read that returns a value** waited with success, and returns what it then read. -/
theorem read_leave {m : Motor} {op : Op} {paramId : BitVec 16} {v : BitVec 32} {tr : CmdTrace}
    {k : Unit → Cmd Unit}
    (h : After (m.body op) tr (.act (.leave (.readParameterRaw paramId) (.value (some v))) k)) :
    ∃ tr₀ frame tr' check, BeforeCheck tr' ∧ Check check true ∧
      tr = tr₀ ++ ⟨.enter (.readParameterRaw paramId), ()⟩ ::
        (([⟨.lockCommand, ()⟩, ⟨.isConnected, true⟩, ⟨.lockMotor, ()⟩] ++
          ⟨.prepare (.readParameterRaw paramId) .readParam, ()⟩ ::
            ((([⟨.unlockMotor, ()⟩, ⟨.transmit (.readParameterRaw paramId) frame, .success⟩] ++
              tr') ++ check :: [⟨.unlockMotor, ()⟩]) ++ ⟨.lockMotor, ()⟩ :: [])) ++
          ⟨.readParam, (paramId, v)⟩ :: [⟨.unlockMotor, ()⟩, ⟨.unlockCommand, ()⟩]) := by
  obtain ⟨fn, hop, rfl | ⟨-, hfn⟩ | ⟨-, hfn⟩⟩ := leave_runs h
  · cases op with
    | readParameterRaw paramId' =>
        obtain rfl := Fn.readParameterRaw.inj (Option.some.inj hop)
        obtain ⟨k', h'⟩ := drop_act h
        rw [readParameterRaw_eq] at h'
        rcases after_bind_act h' with ⟨_, henter⟩ | ⟨tr₁, ⟨⟩, tr₂, rfl, henter, hrest⟩
        · cases henter with
          | cons henter => cases henter
        obtain rfl := after_perform henter
        rcases after_bind_act hrest with ⟨_, hbody⟩ | ⟨tr₃, value, tr₄, rfl, hbody, hlast⟩
        · have hinside : (withCommandMutex (m.readBody paramId')).All
              (Inside fun _ => True) := withCommandMutex_inside (readBody_inside trivial)
          exact absurd rfl (((hinside.at_act hbody).2 _).2 _)
        rcases after_bind_act hlast with ⟨_, hleave⟩ | ⟨tr₅, ⟨⟩, tr₆, rfl, -, hret⟩
        · cases hleave with
          | nil =>
              obtain ⟨tr', rfl, hread⟩ := withCommandMutex_trace hbody
              obtain ⟨frame, tr'', check, htr, hcheck, rfl⟩ := readBody_trace hread
              exact ⟨[], frame, tr'', check, htr, hcheck, by simp⟩
          | cons hleave => cases hleave
        · cases hret
    | processFrame reply => cases hop
    | _ => cases Option.some.inj hop
  · cases hfn
  · cases hfn

end Robstride
