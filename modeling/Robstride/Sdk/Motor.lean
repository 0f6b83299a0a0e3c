import Robstride.Sdk.Protocol
import Robstride.Support.Prog

/-!
# Sdk — Motor

`Motor` of `robstride_motor.h` and `robstride_motor.cpp`.  Its operations are programs over
atomic actions: taking or releasing a mutex, asking the transport, one access to an atomic, or
an access to fields under the mutex that guards them.  What an action does to the shared state
is in `Motor/System.lean`.

The actions `enter` and `leave` record that a function was called and what it returned, and the
`Fn` argument of an action names the function that performs it; the code reads neither.

`protocol_` is set by the constructor and never null, so the test `!protocol_` is left out.
-/

namespace Robstride

open Support (ExtRat Prog)

/-! ### The object -/

/-- The fields that no operation changes. -/
structure Motor where
  motorId : Byte
  hostId : Byte
  profile : MotorProfile
  protocolType : Protocol
  overrunLimit : BitVec 32
  deriving DecidableEq

/-- `*protocol_`. -/
def Motor.protocol (m : Motor) : ProtocolStrategy := m.protocolType.strategy

/-- The fields that operations change. -/
structure MotorVars where
  status : MotorStatus
  expectedResponseType : FrameType
  responseReceived : Bool
  unacknowledgedCommands : BitVec 32
  deriving DecidableEq

/-- The fields as constructed. -/
def Motor.initialVars (m : Motor) : MotorVars where
  status := .initial m.motorId
  expectedResponseType := .info
  responseReceived := false
  unacknowledgedCommands := 0

/-- A frame the transport delivers, and the number of the transmitted frame it answers (`none`
if it answers none), which the code does not see. -/
structure Reply where
  frame : CanFrame
  answers : Option ℕ
  deriving DecidableEq

/-! ### Actions -/

/-- The public functions. -/
inductive Fn where
  | enable
  | stop
  | clearError
  | ping
  | setZero
  | sendMitControl
  | sendCurrentControl
  | sendVelocityControl
  | sendPositionControl
  | setupMode
  | stopPpMode
  | writeParameterRaw
  | readParameterRaw (paramId : BitVec 16)
  deriving DecidableEq

/-- The `send_*` functions, whose frames `unacknowledged_commands_` counts. -/
def Fn.isSend : Fn → Bool
  | .sendMitControl | .sendCurrentControl | .sendVelocityControl | .sendPositionControl => true
  | _ => false

/-- What a function returned. -/
inductive Ret where
  | result (r : Result)
  | value (v : Option (BitVec 32))
  deriving DecidableEq

/-- The atomic actions. -/
inductive Action where
  | enter (fn : Fn)
  | leave (fn : Fn) (ret : Ret)
  | lockCommand
  | unlockCommand
  | lockMotor
  | unlockMotor
  | isConnected
  | transmit (fn : Fn) (frame : CanFrame)
  /-- The two assignments of `prepare_wait`. -/
  | prepare (fn : Fn) (expectedType : FrameType)
  /-- `wait_for` up to its first look at `response_received_`: it keeps `motor_mutex_` if the
  flag is set, and otherwise releases it and sleeps. -/
  | startWait (timeoutMs : ℕ)
  /-- The end of `wait_for`: `motor_mutex_` is taken again, and the flag is set or the time is
  over. -/
  | wake
  | readParam
  /-- `parse_feedback` into `status_`, and `is_connected = true` where it returns `true`. -/
  | parse (reply : Reply)
  | fetchAdd
  | fetchSub (reply : Reply)
  | store (value : BitVec 32)
  | expectedType
  /-- `response_received_ = true` and `notify_all`. -/
  | notify
  | countUnknown
  /-- An expression without a defined value. -/
  | undefined
  deriving DecidableEq

/-- What an action answers. -/
@[reducible] def Action.Res : Action → Type
  | .isConnected | .startWait _ | .wake | .parse _ => Bool
  | .transmit _ _ => Result
  | .readParam => BitVec 16 × BitVec 32
  | .fetchAdd | .fetchSub _ => BitVec 32
  | .expectedType => FrameType
  | .undefined => Empty
  | _ => Unit

/-- A program over the actions. -/
abbrev Cmd (α : Type) := Prog Action Action.Res α

/-- A call begins; record only. -/
def enter (fn : Fn) : Cmd Unit := .perform (Action.enter fn)

/-- The call returns; record only. -/
def leave (fn : Fn) (ret : Ret) : Cmd Unit := .perform (Action.leave fn ret)

/-- `command_mutex_` is taken. -/
def lockCommand : Cmd Unit := .perform Action.lockCommand

/-- `command_mutex_` is given back. -/
def unlockCommand : Cmd Unit := .perform Action.unlockCommand

/-- `motor_mutex_` is taken. -/
def lockMotor : Cmd Unit := .perform Action.lockMotor

/-- `motor_mutex_` is given back. -/
def unlockMotor : Cmd Unit := .perform Action.unlockMotor

/-- `transport_->is_connected()`. -/
def isConnected : Cmd Bool := .perform Action.isConnected

/-- `transport_->transmit(frame)`. -/
def transmit (fn : Fn) (frame : CanFrame) : Cmd Result := .perform (Action.transmit fn frame)

/-- The expected type is stored and the flag cleared. -/
def prepare (fn : Fn) (expectedType : FrameType) : Cmd Unit :=
  .perform (Action.prepare fn expectedType)

/-- The wait begins; `true` where the flag is set already. -/
def startWait (timeoutMs : ℕ) : Cmd Bool := .perform (Action.startWait timeoutMs)

/-- The wait ends; `true` where the flag is set. -/
def wake : Cmd Bool := .perform Action.wake

/-- The last parameter reply in `status_`: its index and its value. -/
def readParam : Cmd (BitVec 16 × BitVec 32) := .perform Action.readParam

/-- `parse_feedback` on `status_`. -/
def parse (reply : Reply) : Cmd Bool := .perform (Action.parse reply)

/-- `++unacknowledged_commands_`: the value after. -/
def fetchAdd : Cmd (BitVec 32) := .perform Action.fetchAdd

/-- `unacknowledged_commands_.fetch_sub(1)`: the value before. -/
def fetchSub (reply : Reply) : Cmd (BitVec 32) := .perform (Action.fetchSub reply)

/-- A store to `unacknowledged_commands_`. -/
def store (value : BitVec 32) : Cmd Unit := .perform (Action.store value)

/-- `expected_response_type_`. -/
def expectedType : Cmd FrameType := .perform Action.expectedType

/-- The waiting command is woken. -/
def notify : Cmd Unit := .perform Action.notify

/-- `status_.unknown_frame_count++`. -/
def countUnknown : Cmd Unit := .perform Action.countUnknown

/-- Nothing follows an expression without a defined value. -/
def undefined {α : Type} : Cmd α := .act Action.undefined nofun

/-- A function's body between the records of its call and its return. -/
def recorded (fn : Fn) (body : Cmd Result) : Cmd Result := do
  enter fn
  let r ← body
  leave fn (.result r)
  return r

/-- The body under `std::lock_guard` on `command_mutex_`. -/
def withCommandMutex {α : Type} (body : Cmd α) : Cmd α := do
  lockCommand
  let x ← body
  unlockCommand
  return x

/-! ### Waiting -/

/-- `prepare_wait`, under `motor_mutex_`. -/
def prepareWait (fn : Fn) (expected : FrameType) : Cmd Unit := do
  lockMotor
  prepare fn expected
  unlockMotor

/-- `wait_for_response`: `wait_for` on the condition variable, under `motor_mutex_` but for the
sleep. -/
def waitForResponse (timeoutMs : ℕ) : Cmd Result := do
  lockMotor
  let ready ← startWait timeoutMs
  let received ← (if ready then pure true else wake)
  unlockMotor
  return if received then .success else .errTimeout

namespace Motor

/-! ### Synchronous commands -/

/-- What the five synchronous commands share: `failed` is what the command returns for the
result of a `transmit` that failed. -/
def request (fn : Fn) (frame : CanFrame) (expected : FrameType) (timeoutMs : ℕ)
    (failed : Result → Result) : Cmd Result :=
  recorded fn <| withCommandMutex do
    if ← isConnected then
      prepareWait fn expected
      let sent ← transmit fn frame
      if sent = .success then waitForResponse timeoutMs else return failed sent
    else return .errNotConnected

/-- A failed `transmit` becomes `ERR_TRANSPORT`. -/
def enable (m : Motor) : Cmd Result :=
  request .enable (m.protocol.encodeEnable m.motorId m.hostId) .feedback 50 fun _ => .errTransport

/-- The result of a failed `transmit` is passed on. -/
def stop (m : Motor) : Cmd Result :=
  request .stop (m.protocol.encodeStop m.motorId m.hostId) .feedback 50 id

/-- The result of a failed `transmit` is passed on. -/
def clearError (m : Motor) : Cmd Result :=
  request .clearError (m.protocol.encodeClearError m.motorId m.hostId) .feedback 50 id

/-- It waits for the reply type that the protocol names. -/
def ping (m : Motor) : Cmd Result :=
  request .ping (m.protocol.encodePing m.motorId m.hostId) m.protocol.pingResponseType 50
    fun _ => .errTransport

/-- It waits twice as long as the others. -/
def setZero (m : Motor) : Cmd Result :=
  request .setZero (m.protocol.encodeSetZero m.motorId m.hostId) .feedback 100
    fun _ => .errTransport

/-! ### Control commands -/

/-- One more pending command; over the limit the counter is capped at it and the motor stopped. -/
def checkOverrun (m : Motor) : Cmd Bool := do
  let pending ← fetchAdd
  -- Both sides of the comparison are signed: `(int)overrun_limit_`.
  if m.overrunLimit.slt pending then
    store m.overrunLimit
    let _ ← m.stop
    return false
  else return true

/-- What the four `send_*` functions share; the frame is `none` where encoding it evaluates an
expression without a defined value. -/
def send (m : Motor) (fn : Fn) (frame : Option CanFrame) : Cmd Result :=
  recorded fn do
    if ← isConnected then
      if ← m.checkOverrun then
        match frame with
        | none => undefined
        | some frame => transmit fn frame
      else return .errOverrun
    else return .errNotConnected

/-- The five setpoints at once. -/
def sendMitControl (m : Motor) (torque pos vel kp kd : ExtRat) : Cmd Result :=
  m.send .sendMitControl
    (m.protocol.encodeMitControl m.motorId m.hostId torque pos vel kp kd m.profile)

/-- `IQ_REF` written without a wait. -/
def sendCurrentControl (m : Motor) (iqRef : CFloat) : Cmd Result :=
  m.send .sendCurrentControl
    (m.protocol.encodeWriteParam m.motorId m.hostId ParamId.iqRef.id (rsHwFloatToRaw iqRef))

/-- `SPD_REF` written without a wait. -/
def sendVelocityControl (m : Motor) (spdRef : CFloat) : Cmd Result :=
  m.send .sendVelocityControl
    (m.protocol.encodeWriteParam m.motorId m.hostId ParamId.spdRef.id (rsHwFloatToRaw spdRef))

/-- `LOC_REF` written without a wait. -/
def sendPositionControl (m : Motor) (locRef : CFloat) : Cmd Result :=
  m.send .sendPositionControl
    (m.protocol.encodeWriteParam m.motorId m.hostId ParamId.locRef.id (rsHwFloatToRaw locRef))

/-! ### Parameters -/

/-- One write frame, not waited for. -/
def writeParameterRaw (m : Motor) (paramId : BitVec 16) (rawPayload : BitVec 32) : Cmd Result :=
  recorded .writeParameterRaw <| withCommandMutex do
    if ← isConnected then
      transmit .writeParameterRaw
        (m.protocol.encodeWriteParam m.motorId m.hostId paramId rawPayload)
    else return .errNotConnected

/-- `write_parameter<T>`: `raw` is what the `memcpy` of the value leaves in a zero word. -/
def writeParameter (m : Motor) (param : TypedParam) (raw : BitVec 32) : Cmd Result :=
  m.writeParameterRaw param.id raw

/-- A read request and the wait for its reply; the value counts only where the reply is for this
parameter. -/
def readParameterRaw (m : Motor) (paramId : BitVec 16) : Cmd (Option (BitVec 32)) := do
  enter (.readParameterRaw paramId)
  let value ← withCommandMutex do
    if ← isConnected then
      let frame := m.protocol.encodeReadParam m.motorId m.hostId paramId
      prepareWait (.readParameterRaw paramId) .readParam
      let sent ← transmit (.readParameterRaw paramId) frame
      if sent = .success then
        let waited ← waitForResponse 100
        if waited = .success then
          lockMotor
          let (index, payload) ← readParam
          unlockMotor
          return if index = paramId then some payload else none
        else return none
      else return none
    else return none
  leave (.readParameterRaw paramId) (.value value)
  return value

/-- The run mode first, then the limits of the mode, each in a write of its own; the first failure
ends it. -/
def setupMode (m : Motor) (mode : RunMode) (limit1 limit2 limit3 : CFloat) : Cmd Result :=
  recorded .setupMode do
    let written ← m.writeParameter ParamId.runMode ((mode.toInt.setWidth 8).setWidth 32)
    if written = .success then
      match mode with
      | .operation | .current => return .success
      | .speed =>
          let ok ← m.writeParameter ParamId.limitCur limit1.raw
          let ok ← (if ok = .success then m.writeParameter ParamId.accRad limit2.raw else pure ok)
          return if ok = .success then .success else .errNack
      | .positionCsp =>
          let ok ← m.writeParameter ParamId.limitSpd limit1.raw
          return if ok = .success then .success else .errNack
      | .position =>
          let ok ← m.writeParameter ParamId.maxVel limit1.raw
          let ok ← (if ok = .success then m.writeParameter ParamId.accSet limit2.raw else pure ok)
          let ok ← (if ok = .success ∧ ExtRat.le (.fin 0) limit3.val then
              m.writeParameter ParamId.decSet limit3.raw
            else pure ok)
          return if ok = .success then .success else .errNack
      | .other _ _ => return .errInvalidArgument
    else return .errNack

/-- `MAX_VEL` to zero. -/
def stopPpMode (m : Motor) : Cmd Result :=
  recorded .stopPpMode (m.writeParameter ParamId.maxVel 0)

/-! ### Incoming frames -/

/-- A frame of the motor is parsed under `motor_mutex_`, pays for one pending command and wakes
the command that waits for its type. -/
def processFrame (m : Motor) (reply : Reply) : Cmd Unit := do
  if m.protocol.isFeedbackFrame reply.frame m.motorId then
    lockMotor
    if ← parse reply then
      let prev ← fetchSub reply
      if prev.sle 0 then store 0
      let frameType := m.protocol.getResponseType reply.frame
      let expected ← expectedType
      if frameType = expected then notify
    else countUnknown
    unlockMotor

/-- `process_frame` with no other thread running. -/
def processFrameAlone (m : Motor) (frame : CanFrame) (v : MotorVars) : MotorVars :=
  if m.protocol.isFeedbackFrame frame m.motorId then
    match m.protocol.parseFeedback frame v.status m.profile with
    | some status =>
        let prev := v.unacknowledgedCommands
        { status := { status with isConnected := true }
          expectedResponseType := v.expectedResponseType
          responseReceived := v.responseReceived ||
            m.protocol.getResponseType frame == v.expectedResponseType
          unacknowledgedCommands := if prev.sle 0 then 0 else prev - 1 }
    | none =>
        { v with status :=
          { v.status with unknownFrameCount := v.status.unknownFrameCount + 1 } }
  else v

end Motor

/-! ### Operations -/

/-- A call of a public function, or a frame the receive thread took from the transport. -/
inductive Op where
  | enable
  | stop
  | clearError
  | ping
  | setZero
  | sendMitControl (torque pos vel kp kd : ExtRat)
  | sendCurrentControl (iqRef : CFloat)
  | sendVelocityControl (spdRef : CFloat)
  | sendPositionControl (locRef : CFloat)
  | setupMode (mode : RunMode) (limit1 limit2 limit3 : CFloat)
  | stopPpMode
  | writeParameterRaw (paramId : BitVec 16) (rawPayload : BitVec 32)
  | readParameterRaw (paramId : BitVec 16)
  | processFrame (reply : Reply)

/-- The program of an operation; the caller drops the result. -/
def Motor.body (m : Motor) : Op → Cmd Unit
  | .enable => do let _ ← m.enable
  | .stop => do let _ ← m.stop
  | .clearError => do let _ ← m.clearError
  | .ping => do let _ ← m.ping
  | .setZero => do let _ ← m.setZero
  | .sendMitControl torque pos vel kp kd => do let _ ← m.sendMitControl torque pos vel kp kd
  | .sendCurrentControl iqRef => do let _ ← m.sendCurrentControl iqRef
  | .sendVelocityControl spdRef => do let _ ← m.sendVelocityControl spdRef
  | .sendPositionControl locRef => do let _ ← m.sendPositionControl locRef
  | .setupMode mode limit1 limit2 limit3 => do let _ ← m.setupMode mode limit1 limit2 limit3
  | .stopPpMode => do let _ ← m.stopPpMode
  | .writeParameterRaw paramId rawPayload => do let _ ← m.writeParameterRaw paramId rawPayload
  | .readParameterRaw paramId => do let _ ← m.readParameterRaw paramId
  | .processFrame reply => m.processFrame reply

/-- A property of programs that the functions have, their results dropped. -/
structure Motor.EveryFunction (m : Motor) (P : Cmd Unit → Prop) : Prop where
  request : ∀ fn frame expected timeoutMs failed,
    P (do let _ ← Motor.request fn frame expected timeoutMs failed)
  send : ∀ fn frame, P (do let _ ← m.send fn frame)
  setupMode : ∀ mode limit1 limit2 limit3, P (do let _ ← m.setupMode mode limit1 limit2 limit3)
  stopPpMode : P (do let _ ← m.stopPpMode)
  writeParameterRaw : ∀ paramId rawPayload, P (do let _ ← m.writeParameterRaw paramId rawPayload)
  readParameterRaw : ∀ paramId, P (do let _ ← m.readParameterRaw paramId)
  processFrame : ∀ reply, P (m.processFrame reply)

/-- A property of every function holds of the program of every operation. -/
theorem Motor.EveryFunction.body {m : Motor} {P : Cmd Unit → Prop} (h : m.EveryFunction P)
    (op : Op) : P (m.body op) := by
  cases op with
  | enable | stop | clearError | ping | setZero => exact h.request _ _ _ _ _
  | sendMitControl _ _ _ _ _ | sendCurrentControl _ | sendVelocityControl _
  | sendPositionControl _ => exact h.send _ _
  | setupMode mode limit1 limit2 limit3 => exact h.setupMode mode limit1 limit2 limit3
  | stopPpMode => exact h.stopPpMode
  | writeParameterRaw paramId rawPayload => exact h.writeParameterRaw paramId rawPayload
  | readParameterRaw paramId => exact h.readParameterRaw paramId
  | processFrame reply => exact h.processFrame reply

end Robstride
