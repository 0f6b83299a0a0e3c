import Robstride.Motor.Dispatch
import Robstride.Protocol.Layout

/-!
# Motor — Private motors on one transport

A private reply carries its motor's id in bits 15..8 of the extended id, where a command carries the
host's id, or the low byte of a torque.  So a frame changes at most the motor that bits 15..8 name
(`dispatchLoop_changes`), and a command with a host id that is no motor's id changes none: either
bits 15..8 hold that host id, or the type is one that no reply has (`encoded_refused`).
-/

namespace Robstride

/-- Motors under the private protocol, their ids distinct and none of them the host's. -/
structure PrivateBus where
  motors : List Motor
  hostId : Byte
  priv : ∀ m ∈ motors, m.protocolType = .priv
  distinct : (motors.map Motor.motorId).Nodup
  host_free : hostId ∉ motors.map Motor.motorId

variable {m : Motor} {frame : CanFrame}

/-! ### The motor that a frame names -/

/-- `rs_get_motor_id` reads bits 15..8. -/
theorem rsGetMotorId_eq (canId : BitVec 32) :
    rsGetMotorId (canId &&& canEffMask) = canId.extractLsb' 8 8 := by
  ext i hi
  unfold rsGetMotorId canEffMask
  interval_cases i <;> simp

theorem isFeedbackFrame_priv (hp : m.protocolType = .priv) :
    m.protocol.isFeedbackFrame = ProtocolPrivate.isFeedbackFrame :=
  congrArg (fun p => (Protocol.strategy p).isFeedbackFrame) hp

/-- A private motor accepts frames that name it, of four types. -/
theorem accepted_priv (hp : m.protocolType = .priv)
    (h : m.protocol.isFeedbackFrame frame m.motorId = true) :
    frame.canId.extractLsb' 8 8 = m.motorId ∧
      FrameType.ofByte (rsGetMsgType (frame.canId &&& canEffMask)) ∈
        [FrameType.feedback, .fault, .readParam, .info] := by
  rw [isFeedbackFrame_priv hp] at h
  obtain ⟨haddressed, hsupported⟩ := ProtocolPrivate.isFeedbackFrame_iff_addressed.mp h
  exact ⟨(rsGetMotorId_eq _).symm.trans haddressed.2, not_not.mp hsupported⟩

/-- A private motor that a frame changes is the one it names. -/
theorem changed_priv (hp : m.protocolType = .priv) {v : MotorVars}
    (h : m.processFrameAlone frame v ≠ v) : m.motorId = frame.canId.extractLsb' 8 8 := by
  cases hacc : m.protocol.isFeedbackFrame frame m.motorId with
  | true => exact (accepted_priv hp hacc).1.symm
  | false => exact absurd (processFrameAlone_eq_self hacc) h

/-- One dispatch changes at most the motor that the frame names. -/
theorem dispatchLoop_changes (bus : PrivateBus) (frame : CanFrame) (vars : Motor → MotorVars)
    (h : dispatchLoop bus.motors frame vars m ≠ vars m) :
    m ∈ bus.motors ∧ m.motorId = frame.canId.extractLsb' 8 8 := by
  rw [dispatchLoop_apply (bus.distinct.of_map _)] at h
  by_cases hm : m ∈ bus.motors
  · rw [if_pos hm] at h
    exact ⟨hm, changed_priv (bus.priv m hm) h⟩
  · rw [if_neg hm] at h
    exact absurd rfl h

/-! ### Commands -/

/-- The frames that the encoders make, for any motor, with one host id. -/
inductive Encoded (hostId : Byte) : CanFrame → Prop
  | enable (motorId : Byte) : Encoded hostId (ProtocolPrivate.encodeEnable motorId hostId)
  | stop (motorId : Byte) : Encoded hostId (ProtocolPrivate.encodeStop motorId hostId)
  | clearError (motorId : Byte) : Encoded hostId (ProtocolPrivate.encodeClearError motorId hostId)
  | ping (motorId : Byte) : Encoded hostId (ProtocolPrivate.encodePing motorId hostId)
  | setZero (motorId : Byte) : Encoded hostId (ProtocolPrivate.encodeSetZero motorId hostId)
  | mitControl (motorId : Byte) (raw : ProtocolPrivate.RawControl) :
      Encoded hostId (ProtocolPrivate.packMitControl motorId raw)
  | readParam (motorId : Byte) (param : BitVec 16) :
      Encoded hostId (ProtocolPrivate.encodeReadParam motorId hostId param)
  | writeParam (motorId : Byte) (param : BitVec 16) (rawPayload : BitVec 32) :
      Encoded hostId (ProtocolPrivate.encodeWriteParam motorId hostId param rawPayload)

/-- What `encode_mit_control` makes is one of these. -/
theorem encoded_mitControl {hostId motorId : Byte} {torque pos vel kp kd : Support.ExtRat}
    {profile : MotorProfile} (h : ProtocolPrivate.encodeMitControl motorId hostId torque pos vel kp kd
      profile = some frame) : Encoded hostId frame := by
  obtain ⟨raw, -, rfl⟩ := Option.map_eq_some_iff.mp h
  exact .mitControl motorId raw

/-- A command is packed with the host id, or is a control frame. -/
theorem Encoded.canId {hostId : Byte} (h : Encoded hostId frame) :
    ∃ (type : FrameType) (motorId : Byte) (dataArea : BitVec 16),
      frame.canId = rsHwPackCanId type motorId dataArea ∧
        (dataArea = hostId.setWidth 16 ∨ type = .control) := by
  cases h with
  | enable motorId => exact ⟨.enable, motorId, _, rfl, Or.inl rfl⟩
  | stop motorId => exact ⟨.disable, motorId, _, rfl, Or.inl rfl⟩
  | clearError motorId => exact ⟨.disable, motorId, _, rfl, Or.inl rfl⟩
  | ping motorId => exact ⟨.info, motorId, _, rfl, Or.inl rfl⟩
  | setZero motorId => exact ⟨.zeroPos, motorId, _, rfl, Or.inl rfl⟩
  | mitControl motorId raw => exact ⟨.control, motorId, raw.torque, rfl, Or.inr rfl⟩
  | readParam motorId param => exact ⟨.readParam, motorId, _, rfl, Or.inl rfl⟩
  | writeParam motorId param rawPayload => exact ⟨.writeParam, motorId, _, rfl, Or.inl rfl⟩

/-- A command is no reply to a motor other than the host. -/
theorem encoded_refused {hostId : Byte} (h : Encoded hostId frame) (hp : m.protocolType = .priv)
    (hhost : hostId ≠ m.motorId) : m.protocol.isFeedbackFrame frame m.motorId = false := by
  refine Bool.eq_false_iff.mpr fun hacc => ?_
  obtain ⟨hid, htype⟩ := accepted_priv hp hacc
  obtain ⟨type, motorId, dataArea, hcanId, hdata⟩ := h.canId
  rcases hdata with rfl | rfl
  · -- Bits 15..8 hold the host id.
    rw [← rsGetMotorId_eq, hcanId, rsGetMotorId_pack] at hid
    rw [BitVec.setWidth_setWidth_of_le _ (by decide), BitVec.setWidth_eq] at hid
    exact hhost hid
  · rw [hcanId, rsGetMsgType_pack] at htype
    revert htype
    decide

/-- **Private motors are kept apart**: a frame changes at most the motor that bits 15..8 of its id
name, and no command is taken for a reply. -/
theorem private_separation (bus : PrivateBus) :
    (∀ frame vars m, dispatchLoop bus.motors frame vars m ≠ vars m →
      m ∈ bus.motors ∧ m.motorId = frame.canId.extractLsb' 8 8 ∧
        ∀ m', dispatchLoop bus.motors frame vars m' ≠ vars m' → m' = m) ∧
    (∀ frame, Encoded bus.hostId frame → ∀ m ∈ bus.motors,
      m.protocol.isFeedbackFrame frame m.motorId = false) := by
  constructor
  · intro frame vars m h
    obtain ⟨hm, hid⟩ := dispatchLoop_changes bus frame vars h
    refine ⟨hm, hid, fun m' h' => ?_⟩
    obtain ⟨hm', hid'⟩ := dispatchLoop_changes bus frame vars h'
    exact List.inj_on_of_nodup_map bus.distinct hm' hm (hid'.trans hid.symm)
  · intro frame h m hm
    refine encoded_refused h (bus.priv m hm) fun hhost => bus.host_free ?_
    exact hhost ▸ List.mem_map_of_mem hm

/-- A motor for a bus of several. -/
def Motor.privSample (motorId : Byte) : Motor where
  motorId := motorId
  hostId := 0
  profile := ⟨.fin 17, .fin 50⟩
  protocolType := .priv
  overrunLimit := 1

/-- Two private motors on one bus. -/
def PrivateBus.sample : PrivateBus where
  motors := [.privSample 1, .privSample 2]
  hostId := 0
  priv := by decide
  distinct := by decide
  host_free := by decide

/-- Feedback of motor 2 changes motor 2 alone, and the command to stop it is no reply to motor 1. -/
theorem private_separation_sample :
    (∀ m, dispatchLoop PrivateBus.sample.motors (rsHwCreateFrame (rsHwPackCanId .feedback 0 2))
        Motor.initialVars m ≠ m.initialVars ↔ m = .privSample 2) ∧
      (Motor.privSample 1).protocol.isFeedbackFrame (ProtocolPrivate.encodeStop 2 0) 1 = false := by
  obtain ⟨honly, hrefused⟩ := private_separation .sample
  have hchanged : dispatchLoop PrivateBus.sample.motors
      (rsHwCreateFrame (rsHwPackCanId .feedback 0 2)) Motor.initialVars (.privSample 2) ≠
        Motor.initialVars (.privSample 2) := by
    intro h
    have hconnected : true = false := congrArg (fun v => v.status.isConnected) h
    contradiction
  refine ⟨fun m => ⟨fun h => ?_, fun h => h ▸ hchanged⟩, ?_⟩
  · exact (honly _ _ _ hchanged).2.2 m h
  · exact hrefused _ (.stop 2) (.privSample 1) (by decide)

end Robstride
