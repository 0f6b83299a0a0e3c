import Robstride.Motor.Fleet
import Robstride.Motor.Programs
import Robstride.Protocol.Layout
import Robstride.Support.Answers

/-!
# Motor — What is transmitted

Every frame that a motor's functions hand to the transport is laid out by its protocol for that
motor: eight bytes long, and for the private protocol extended, without the remote and error flags,
for MIT standard; its low id byte is the motor (`commands_body`, `fleet_commands`).
-/

namespace Robstride

open Support Support.Pool Support.Prog

/-! ### Layouts -/

/-- A frame to the motor under the private protocol. -/
structure ProtocolPrivate.Commands (motorId : Byte) (frame : CanFrame) : Prop where
  dlc : frame.canDlc = canMaxDlen
  id : ∃ type dataArea, frame.canId = rsHwPackCanId type motorId dataArea ∧
    type.toByte &&& 0x60 = 0

/-- A frame to the motor under MIT. -/
structure ProtocolMIT.Commands (motorId : Byte) (frame : CanFrame) : Prop where
  dlc : frame.canDlc = canMaxDlen
  id : ∃ mode : BitVec 32, frame.canId = (mode <<< 8) ||| motorId.setWidth 32 ∧
    (mode = 0 ∨ mode = 3 ∨ mode = 4)

/-- A frame to the motor. -/
def Motor.Commands (m : Motor) (frame : CanFrame) : Prop :=
  match m.protocolType with
  | .priv => ProtocolPrivate.Commands m.motorId frame
  | .mit => ProtocolMIT.Commands m.motorId frame

section Layouts

variable {motorId : Byte} {frame : CanFrame}

/-- A private command is an extended frame. -/
theorem ProtocolPrivate.Commands.eff (h : ProtocolPrivate.Commands motorId frame) :
    frame.canId &&& canEffFlag ≠ 0 := by
  obtain ⟨type, dataArea, hid, -⟩ := h.id
  intro hzero
  rw [hid] at hzero
  have hbit := congrArg (fun x : BitVec 32 => x[31]) hzero
  simp [rsHwPackCanId, canEffFlag] at hbit

/-- The type fits in five bits, so the remote and error flags are clear. -/
theorem ProtocolPrivate.Commands.plain (h : ProtocolPrivate.Commands motorId frame) :
    frame.canId &&& 0x60000000 = 0 := by
  obtain ⟨type, dataArea, hid, htype⟩ := h.id
  have h5 : type.toByte[5] = false := by simpa using congrArg (fun x : Byte => x[5]) htype
  have h6 : type.toByte[6] = false := by simpa using congrArg (fun x : Byte => x[6]) htype
  rw [hid]
  unfold rsHwPackCanId canEffFlag
  ext i hi
  interval_cases i <;> simp [h5, h6]

/-- A private command has the motor's id in its low byte. -/
theorem ProtocolPrivate.Commands.motor (h : ProtocolPrivate.Commands motorId frame) :
    frame.canId.setWidth 8 = motorId := by
  obtain ⟨type, dataArea, hid, -⟩ := h.id
  rw [hid]
  unfold rsHwPackCanId canEffFlag
  ext i hi
  interval_cases i <;> simp

/-- An MIT command is a standard frame. -/
theorem ProtocolMIT.Commands.standard (h : ProtocolMIT.Commands motorId frame) :
    frame.canId &&& canEffFlag = 0 := by
  obtain ⟨mode, hid, hmode⟩ := h.id
  rw [hid]
  unfold canEffFlag
  ext i hi
  rcases hmode with rfl | rfl | rfl <;> interval_cases i <;> simp

end Layouts

/-! ### Encoders -/

section Encoders

variable (m : Motor)

/-- The two protocols lay a command out in their own way. -/
theorem commands_of (encode : ProtocolStrategy → CanFrame)
    (hpriv : ProtocolPrivate.Commands m.motorId (encode Protocol.priv.strategy))
    (hmit : ProtocolMIT.Commands m.motorId (encode Protocol.mit.strategy)) :
    m.Commands (encode m.protocol) := by
  unfold Motor.Commands Motor.protocol
  cases m.protocolType with
  | priv => exact hpriv
  | mit => exact hmit

/-- An MIT frame that names no mode. -/
theorem mit_unmoded (motorId : Byte) (data : Payload) :
    ProtocolMIT.Commands motorId ⟨motorId.setWidth 32, canMaxDlen, data⟩ :=
  ⟨rfl, 0, by simp, Or.inl rfl⟩

/-- The frame of `enable` is a command to the motor. -/
theorem commands_enable : m.Commands (m.protocol.encodeEnable m.motorId m.hostId) :=
  commands_of m (fun p => p.encodeEnable m.motorId m.hostId) ⟨rfl, .enable, _, rfl, rfl⟩
    (mit_unmoded _ _)

/-- The frame of `stop` is one. -/
theorem commands_stop : m.Commands (m.protocol.encodeStop m.motorId m.hostId) :=
  commands_of m (fun p => p.encodeStop m.motorId m.hostId) ⟨rfl, .disable, _, rfl, rfl⟩
    (mit_unmoded _ _)

/-- The frame of `clear_error` is one. -/
theorem commands_clearError : m.Commands (m.protocol.encodeClearError m.motorId m.hostId) :=
  commands_of m (fun p => p.encodeClearError m.motorId m.hostId)
    ⟨rfl, .disable, _, rfl, rfl⟩ (mit_unmoded _ _)

/-- The frame of `ping` is one. -/
theorem commands_ping : m.Commands (m.protocol.encodePing m.motorId m.hostId) :=
  commands_of m (fun p => p.encodePing m.motorId m.hostId) ⟨rfl, .info, _, rfl, rfl⟩
    ⟨rfl, 3, rfl, Or.inr (Or.inl rfl)⟩

/-- The frame of `set_zero` is one. -/
theorem commands_setZero : m.Commands (m.protocol.encodeSetZero m.motorId m.hostId) :=
  commands_of m (fun p => p.encodeSetZero m.motorId m.hostId) ⟨rfl, .zeroPos, _, rfl, rfl⟩
    (mit_unmoded _ _)

/-- A read of any parameter is one. -/
theorem commands_readParam (param : BitVec 16) :
    m.Commands (m.protocol.encodeReadParam m.motorId m.hostId param) :=
  commands_of m (fun p => p.encodeReadParam m.motorId m.hostId param)
    ⟨rfl, .readParam, _, rfl, rfl⟩ ⟨rfl, 3, rfl, Or.inr (Or.inl rfl)⟩

/-- A write of any parameter is one. -/
theorem commands_writeParam (param : BitVec 16) (rawPayload : BitVec 32) :
    m.Commands (m.protocol.encodeWriteParam m.motorId m.hostId param rawPayload) :=
  commands_of m (fun p => p.encodeWriteParam m.motorId m.hostId param rawPayload)
    ⟨rfl, .writeParam, _, rfl, rfl⟩ ⟨rfl, 4, rfl, Or.inr (Or.inr rfl)⟩

/-- The frame of the five setpoints is one, where they have a frame. -/
theorem commands_mitControl {torque pos vel kp kd : ExtRat} {frame : CanFrame}
    (h : m.protocol.encodeMitControl m.motorId m.hostId torque pos vel kp kd m.profile =
      some frame) : m.Commands frame := by
  unfold Motor.protocol at h
  unfold Motor.Commands
  cases hp : m.protocolType with
  | priv =>
      rw [hp] at h
      obtain ⟨raw, -, rfl⟩ := Option.map_eq_some_iff.mp h
      exact ⟨rfl, .control, _, rfl, rfl⟩
  | mit =>
      rw [hp] at h
      obtain ⟨raw, -, rfl⟩ := Option.map_eq_some_iff.mp h
      exact mit_unmoded _ _

end Encoders

/-! ### Programs -/

/-- What the action hands to the transport is such a frame. -/
def Action.Hands (P : CanFrame → Prop) : Action → Prop
  | .transmit _ frame => P frame
  | _ => True

section Programs

variable {P : CanFrame → Prop}

/-- Both branches of a test hand out such frames. -/
theorem hands_ite {α : Type} {b : Prop} [Decidable b] {p q : Cmd α} (hp : p.All (Action.Hands P))
    (hq : q.All (Action.Hands P)) : (if b then p else q).All (Action.Hands P) := by
  split_ifs
  · exact hp
  · exact hq

/-- The records of a call hand out no frame. -/
theorem hands_recorded {fn : Fn} {body : Cmd Result} (h : body.All (Action.Hands P)) :
    (recorded fn body).All (Action.Hands P) :=
  .bind (.perform trivial) fun _ => .bind h fun _ => .bind (.perform trivial) fun _ => trivial

/-- Taking `command_mutex_` hands out no frame. -/
theorem hands_withCommandMutex {α : Type} {body : Cmd α} (h : body.All (Action.Hands P)) :
    (withCommandMutex body).All (Action.Hands P) :=
  .bind (.perform trivial) fun _ => .bind h fun _ => .bind (.perform trivial) fun _ => trivial

/-- The test for the connection hands out no frame. -/
theorem hands_isConnected : isConnected.All (Action.Hands P) := .perform trivial

/-- `prepare_wait` hands out no frame. -/
theorem hands_prepareWait (fn : Fn) (expected : FrameType) :
    (prepareWait fn expected).All (Action.Hands P) :=
  .bind (.perform trivial) fun _ => .bind (.perform trivial) fun _ => .perform trivial

/-- Waiting hands out no frame. -/
theorem hands_waitForResponse (timeoutMs : ℕ) :
    (waitForResponse timeoutMs).All (Action.Hands P) := by
  refine .bind (.perform trivial) fun _ => .bind (.perform trivial) fun ready => .bind ?_
    fun _ => .bind (.perform trivial) fun _ => trivial
  cases ready with
  | true => trivial
  | false => exact .perform trivial

/-- A transmit hands out its own frame. -/
theorem hands_transmit {fn : Fn} {frame : CanFrame} (h : P frame) :
    (transmit fn frame).All (Action.Hands P) := .perform h

/-- A synchronous command hands out its own frame and no other. -/
theorem hands_request {fn : Fn} {frame : CanFrame} (h : P frame) (expected : FrameType)
    (timeoutMs : ℕ) (failed : Result → Result) :
    (Motor.request fn frame expected timeoutMs failed).All (Action.Hands P) := by
  refine hands_recorded (hands_withCommandMutex (hands_isConnected.bind fun _ => hands_ite ?_ ?_))
  · refine (hands_prepareWait fn expected).bind fun _ => (hands_transmit h).bind fun _ => ?_
    exact hands_ite (hands_waitForResponse timeoutMs) trivial
  · trivial

/-- `process_frame` hands out no frame. -/
theorem hands_processFrame (m : Motor) (reply : Reply) :
    (m.processFrame reply).All (Action.Hands P) := by
  refine (processFrame_processes m reply).mono fun a ha => ?_
  cases a with
  | transmit fn frame => cases ha.1
  | _ => trivial

variable (m : Motor)

/-- `check_overrun` hands out the frame of the stop, if any. -/
theorem commands_checkOverrun : m.checkOverrun.All (Action.Hands m.Commands) := by
  refine .bind (.perform trivial) fun _ => hands_ite (.bind (.perform trivial) fun _ => ?_) trivial
  exact .bind (hands_request (commands_stop m) _ _ _) fun _ => trivial

/-- A `send_*` hands out its own frame after the stop's. -/
theorem commands_send (fn : Fn) {frame : Option CanFrame} (h : ∀ f, frame = some f → m.Commands f) :
    (m.send fn frame).All (Action.Hands m.Commands) := by
  refine hands_recorded (hands_isConnected.bind fun _ => hands_ite ?_ trivial)
  refine (commands_checkOverrun m).bind fun _ => hands_ite ?_ trivial
  cases frame with
  | none => exact ⟨trivial, fun r => r.elim⟩
  | some f => exact hands_transmit (h f rfl)

/-- A write hands out a command to the motor. -/
theorem commands_writeParameterRaw (paramId : BitVec 16) (rawPayload : BitVec 32) :
    (m.writeParameterRaw paramId rawPayload).All (Action.Hands m.Commands) := by
  refine hands_recorded
    (hands_withCommandMutex (hands_isConnected.bind fun _ => hands_ite ?_ trivial))
  exact hands_transmit (commands_writeParam m paramId rawPayload)

/-- A read hands out a command to the motor. -/
theorem commands_readParameterRaw (paramId : BitVec 16) :
    (m.readParameterRaw paramId).All (Action.Hands m.Commands) := by
  refine .bind (.perform trivial) fun _ => .bind (hands_withCommandMutex ?_) fun _ =>
    .bind (.perform trivial) fun _ => trivial
  refine hands_isConnected.bind fun _ => hands_ite ?_ trivial
  refine (hands_prepareWait _ _).bind fun _ => ?_
  refine (hands_transmit (commands_readParam m paramId)).bind fun _ => hands_ite ?_ trivial
  refine (hands_waitForResponse 100).bind fun _ => hands_ite ?_ trivial
  exact .bind (.perform trivial) fun _ => .bind (.perform trivial) fun _ =>
    .bind (.perform trivial) fun _ => trivial

/-- `setup_mode` hands out the writes of its mode. -/
theorem commands_setupMode (mode : RunMode) (limit1 limit2 limit3 : CFloat) :
    (m.setupMode mode limit1 limit2 limit3).All (Action.Hands m.Commands) := by
  have hwrite : ∀ (param : TypedParam) (raw : BitVec 32),
      (m.writeParameter param raw).All (Action.Hands m.Commands) :=
    fun param raw => commands_writeParameterRaw m param.id raw
  have hret : ∀ r : Result, (Prog.ret r : Cmd Result).All (Action.Hands m.Commands) :=
    fun _ => trivial
  refine hands_recorded ((hwrite _ _).bind fun _ => hands_ite ?_ trivial)
  cases mode with
  | operation | current | other name value => trivial
  | speed =>
      exact (hwrite _ _).bind fun ok => .bind (hands_ite (hwrite _ _) (hret ok)) fun _ => trivial
  | positionCsp => exact (hwrite _ _).bind fun _ => trivial
  | position =>
      refine (hwrite _ _).bind fun ok => .bind (hands_ite (hwrite _ _) (hret ok)) fun ok' => ?_
      exact .bind (hands_ite (hwrite _ _) (hret ok')) fun _ => trivial

/-- Dropping the result hands out no frame. -/
theorem hands_drop {α : Type} {p : Cmd α} (h : p.All (Action.Hands P)) :
    (do let _ ← p : Cmd Unit).All (Action.Hands P) := h.bind fun _ => trivial

/-- **Every operation** hands frames to its motor to the transport. -/
theorem commands_body (op : Op) : (m.body op).All (Action.Hands m.Commands) := by
  cases op with
  | enable => exact hands_drop (hands_request (commands_enable m) _ _ _)
  | stop => exact hands_drop (hands_request (commands_stop m) _ _ _)
  | clearError => exact hands_drop (hands_request (commands_clearError m) _ _ _)
  | ping => exact hands_drop (hands_request (commands_ping m) _ _ _)
  | setZero => exact hands_drop (hands_request (commands_setZero m) _ _ _)
  | sendMitControl torque pos vel kp kd =>
      exact hands_drop (commands_send m _ fun _ => commands_mitControl m)
  | sendCurrentControl _ | sendVelocityControl _ | sendPositionControl _ =>
      refine hands_drop (commands_send m _ ?_)
      rintro _ ⟨⟩
      exact commands_writeParam m _ _
  | setupMode mode limit1 limit2 limit3 => exact hands_drop (commands_setupMode m _ _ _ _)
  | stopPpMode => exact hands_drop (hands_recorded (commands_writeParameterRaw m _ _))
  | writeParameterRaw paramId rawPayload => exact hands_drop (commands_writeParameterRaw m _ _)
  | readParameterRaw paramId => exact hands_drop (commands_readParameterRaw m _)
  | processFrame reply => exact hands_processFrame m reply

end Programs

/-! ### The record of frames sent -/

/-- What an action puts on the record of frames sent. -/
def Action.sentBy : (a : Action) → a.Res → List (Fn × CanFrame)
  | .transmit fn frame, sent => if sent = .success then [(fn, frame)] else []
  | _, _ => []

/-- An action adds to the line the frame it transmits, if it transmits one. -/
theorem perform_sent {m : Motor} {t : ℕ} {a : Action} {ch : Choice} {s s' : State} {r : a.Res}
    (h : m.perform t a ch s = some (r, s')) : s'.sent = s.sent ++ a.sentBy r := by
  cases a with
  | transmit fn frame =>
      rcases perform_transmit h with ⟨rfl, rfl⟩ | ⟨hfailed, rfl⟩
      · rfl
      · rw [Action.sentBy, if_neg hfailed, List.append_nil]
        rfl
  | leave fn ret =>
      obtain ⟨-, rfl⟩ := Prod.mk.inj (Option.some.inj h)
      have hnone : (Action.leave fn ret).sentBy r = [] := rfl
      rw [hnone, List.append_nil]
      unfold State.close
      split_ifs <;> rfl
  | isConnected =>
      obtain rfl := perform_isConnected h
      exact (List.append_nil _).symm
  | undefined => cases h
  | _ =>
      simp only [Motor.perform] at h
      repeat' split at h
      all_goals cases h
      all_goals exact (List.append_nil _).symm

/-! ### A fleet -/

namespace Fleet

variable {ι : Type} (motors : ι → Motor)

/-- Each motor's functions hand over frames to that motor. -/
def Hands : FleetAction ι → Prop
  | .on i a => a.Hands (motors i).Commands
  | .refuse i _ frame => (motors i).Commands frame
  | _ => True

/-- `transmit` under `tx_mutex_` hands out its own frame. -/
theorem hands_transmit (i : ι) (fn : Fn) {frame : CanFrame} (h : (motors i).Commands frame) :
    (transmit i fn frame).All (Hands motors) := by
  refine .bind (.perform trivial) fun accepted => ?_
  split_ifs
  · refine .bind (.perform trivial) fun _ => .bind (.perform h) fun _ => ?_
    exact .bind (.perform trivial) fun _ => trivial
  · exact .perform h

/-- What a motor's function hands out, it hands out in the fleet. -/
theorem hands_lift (i : ι) {α : Type} {p : Cmd α}
    (h : p.All (Action.Hands (motors i).Commands)) : (lift i p).All (Hands motors) := by
  induction p with
  | ret x => trivial
  | act a k ih =>
      refine All.bind ?_ fun r => ih r (h.2 r)
      cases a with
      | transmit fn frame => exact hands_transmit motors i fn h.1
      | _ => exact .perform trivial

/-- **Every operation** of a fleet. -/
theorem hands_body [DecidableEq ι] (op : Op ι) : (body motors op).All (Hands motors) := by
  cases op with
  | call i op => exact hands_lift motors i (commands_body (motors i) op)
  | receive rest reply =>
      induction rest with
      | nil => trivial
      | cons i rest ih =>
          exact (hands_lift motors i (hands_processFrame (motors i) reply)).bind fun _ => ih

end Fleet

end Robstride
