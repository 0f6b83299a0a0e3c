import Mathlib.Tactic.IntervalCases
import Robstride.Sdk.Protocol

/-!
# Protocol — Decoding

What a frame carries, apart from the status it is decoded into.  `parse_feedback` takes a frame
through one of four branches, and each branch overwrites fields of its own (`Reading.apply`) with
values that come from the frame alone: `parseFeedback_eq` says so of both protocols, for the status
of the motor that the frame is for.  The branch can be told from what happens to statuses
(`apply_touch_iff`), so a frame takes at most one.  A filter looks at the motor's id and at the type
of the frame or its length (`isFeedbackFrame_iff`).
-/

namespace Robstride

open Support (ExtRat)

/-! ### Readings -/

/-- What a feedback frame says of the motor's motion. -/
structure Telemetry where
  state : MotorState
  angle : ExtRat
  velocity : ExtRat
  torque : ExtRat
  temperature : ExtRat
  deriving DecidableEq

/-- The values a frame carries.  The private protocol's telemetry brings an error mask along. -/
inductive Reading where
  | telemetry (t : Telemetry) (errorMask : Option Byte)
  | param (index : BitVec 16) (payload : BitVec 32)
  | mcu (mcuId : BitVec 64)
  | fault (faultValue warningValue : BitVec 32)
  deriving DecidableEq

/-- The branches of `parse_feedback`, by what they write. -/
inductive Branch where
  | telemetry
  | param
  | mcu
  | fault
  deriving DecidableEq

/-- The frame type that stands for what a branch writes. -/
def Branch.type : Branch → FrameType
  | telemetry => .feedback
  | param => .readParam
  | mcu => .info
  | fault => .fault

theorem Branch.type_injective : Function.Injective Branch.type := by
  intro b b' h
  cases b <;> cases b' <;> first | rfl | cases h

namespace Reading

/-- The branch that a reading comes from. -/
def branch : Reading → Branch
  | telemetry _ _ => .telemetry
  | param _ _ => .param
  | mcu _ => .mcu
  | fault _ _ => .fault

/-- The assignments of a branch. -/
def apply (r : Reading) (status : MotorStatus) : MotorStatus :=
  match r with
  | telemetry t errorMask =>
      { status with
        state := t.state
        errorMask := errorMask.getD status.errorMask
        angle := t.angle
        velocity := t.velocity
        torque := t.torque
        temperature := t.temperature }
  | param index payload => { status with readParamIndex := index, readParamPayload := payload }
  | mcu mcuId => { status with mcuId := mcuId }
  | fault faultValue warningValue =>
      { status with faultValue := faultValue, warningValue := warningValue }

@[simp] theorem apply_motorId (r : Reading) (status : MotorStatus) :
    (r.apply status).motorId = status.motorId := by
  cases r <;> rfl

end Reading

/-- Another value in a field of the branch. -/
def Branch.touch (b : Branch) (status : MotorStatus) : MotorStatus :=
  match b with
  | telemetry => { status with state := if status.state = .run then .reset else .run }
  | param => { status with readParamIndex := status.readParamIndex + 1 }
  | mcu => { status with mcuId := status.mcuId + 1 }
  | fault => { status with faultValue := status.faultValue + 1 }

@[simp] theorem Branch.touch_motorId (b : Branch) (status : MotorStatus) :
    (b.touch status).motorId = status.motorId := by
  cases b <;> rfl

/-- A reading hides what its own branch held, and shows what the others held. -/
theorem Reading.apply_touch_iff (r : Reading) (b : Branch) (status : MotorStatus) :
    r.apply (b.touch status) = r.apply status ↔ r.branch = b := by
  have hstate : (if status.state = .run then MotorState.reset else .run) ≠ status.state := by
    by_cases h : status.state = .run
    · rw [if_pos h, h]
      exact nofun
    · rw [if_neg h]
      exact fun h' => h h'.symm
  cases r <;> cases b <;>
    simp [Reading.apply, Branch.touch, Reading.branch, hstate]

/-! ### The filters -/

/-- An extended frame with the motor's id in bits 15..8. -/
def ProtocolPrivate.Addressed (frame : CanFrame) (motorId : Byte) : Prop :=
  frame.canId &&& canEffFlag ≠ 0 ∧ rsGetMotorId (frame.canId &&& canEffMask) = motorId

/-- A standard frame with the motor's id in the low byte of its id, or in the first byte of its data
if it is a full frame of mode 0. -/
def ProtocolMIT.Addressed (frame : CanFrame) (motorId : Byte) : Prop :=
  frame.canId &&& canEffFlag = 0 ∧
    (rxId frame = motorId ∨ mode frame = 0 ∧ frame.data.byte 0 = motorId ∧ ¬ frame.canDlc < 8)

/-- A type that `parse_feedback` has no branch for. -/
def ProtocolPrivate.Unsupported (frame : CanFrame) : Prop :=
  FrameType.ofByte (rsGetMsgType (frame.canId &&& canEffMask)) ∉
    [FrameType.feedback, .fault, .readParam, .info]

section Filters

variable {frame : CanFrame} {motorId : Byte}

instance : Decidable (ProtocolPrivate.Addressed frame motorId) := inferInstanceAs (Decidable (_ ∧ _))

instance : Decidable (ProtocolMIT.Addressed frame motorId) := inferInstanceAs (Decidable (_ ∧ _))

/-- The private filter passes the motor's frames of four types. -/
theorem ProtocolPrivate.isFeedbackFrame_iff_addressed :
    ProtocolPrivate.isFeedbackFrame frame motorId = true ↔
      ProtocolPrivate.Addressed frame motorId ∧ ¬ ProtocolPrivate.Unsupported frame := by
  unfold ProtocolPrivate.isFeedbackFrame ProtocolPrivate.Addressed ProtocolPrivate.Unsupported
  by_cases hflag : frame.canId &&& canEffFlag = 0
  · rw [if_pos hflag]
    exact iff_of_false nofun fun h => h.1.1 hflag
  · rw [if_neg hflag, Bool.and_eq_true, beq_iff_eq, not_not]
    refine and_congr (and_iff_right hflag).symm ?_
    simp [or_assoc]

/-- The MIT filter passes the motor's full frames. -/
theorem ProtocolMIT.isFeedbackFrame_iff :
    ProtocolMIT.isFeedbackFrame frame motorId = true ↔
      ProtocolMIT.Addressed frame motorId ∧ ¬ frame.canDlc < 8 := by
  unfold ProtocolMIT.isFeedbackFrame ProtocolMIT.Addressed
  by_cases hflag : frame.canId &&& canEffFlag = 0
  · rw [if_neg (not_not.mpr hflag)]
    by_cases hdlc : frame.canDlc < 8
    · rw [if_pos hdlc]
      exact iff_of_false nofun fun h => h.2 hdlc
    · rw [if_neg hdlc]
      by_cases hfirst : mode frame = 0 ∧ frame.data.byte 0 = motorId
      · rw [if_pos hfirst]
        exact iff_of_true rfl ⟨⟨hflag, Or.inr ⟨hfirst.1, hfirst.2, hdlc⟩⟩, hdlc⟩
      · rw [if_neg hfirst]
        by_cases hrx : rxId frame = motorId
        · rw [if_pos hrx]
          exact iff_of_true rfl ⟨⟨hflag, Or.inl hrx⟩, hdlc⟩
        · rw [if_neg hrx]
          refine iff_of_false nofun ?_
          rintro ⟨⟨-, h | ⟨hmode, hbyte, -⟩⟩, -⟩
          · exact hrx h
          · exact hfirst ⟨hmode, hbyte⟩
  · rw [if_pos hflag]
    exact iff_of_false nofun fun h => hflag h.1.1

end Filters

/-! ### The readings of a frame -/

/-- The branches of the private `parse_feedback`. -/
def ProtocolPrivate.reading (frame : CanFrame) (profile : MotorProfile) : Option Reading :=
  let rxId := frame.canId &&& canEffMask
  let data := frame.data
  match FrameType.ofByte (rsGetMsgType rxId) with
  | .feedback =>
      some <| .telemetry
        { state := rsUnpackState rxId
          angle := rsMathDecodeAngle (rsUnpackUint16 (data.byte 0) (data.byte 1))
          velocity :=
            rsMathDecodeVelocity (rsUnpackUint16 (data.byte 2) (data.byte 3)) profile.velocityLimit
          torque :=
            rsMathDecodeTorque (rsUnpackUint16 (data.byte 4) (data.byte 5)) profile.torqueLimit
          temperature := rsMathDecodeTemp (rsUnpackUint16 (data.byte 6) (data.byte 7)) }
        (some (rsUnpackErrorMask rxId))
  | .fault =>
      some <| .fault
        (rsUnpackUint32 (data.byte 3) (data.byte 2) (data.byte 1) (data.byte 0))
        (rsUnpackUint32 (data.byte 7) (data.byte 6) (data.byte 5) (data.byte 4))
  | .readParam =>
      some <| .param (rsUnpackUint16 (data.byte 1) (data.byte 0))
        (rsUnpackUint32 (data.byte 7) (data.byte 6) (data.byte 5) (data.byte 4))
  | .info => some <| .mcu (rsUnpackUint64 data)
  | _ => none

/-- The branches of the MIT `parse_feedback`, which reads the motor's id from the status. -/
def ProtocolMIT.reading (frame : CanFrame) (motorId : Byte) (profile : MotorProfile) :
    Option Reading :=
  let data := frame.data
  if mode frame = 0 ∧ data.byte 0 = motorId then
    some <| .telemetry
      { state := .run
        angle := rsMitMathDecodeAngle (rsUnpackUint16 (data.byte 1) (data.byte 2))
        velocity := rsMitMathDecodeVelocity (rsUnpackMit12bitVel (data.byte 3) (data.byte 4))
        torque := rsMitMathDecodeTorque (rsUnpackMit12bitTorque (data.byte 4) (data.byte 5))
          profile.torqueLimit
        temperature := .fin (rsUnpackUint16 (data.byte 6) (data.byte 7)).toNat * .fin 0.1 }
      none
  else if mode frame = 0 ∧ rxId frame = motorId then some <| .mcu (rsUnpackUint64 data)
  else if (mode frame = 3 ∨ mode frame = 4) ∧ rxId frame = motorId then
    some <| .param (rsUnpackUint16 (data.byte 1) (data.byte 0))
      (rsUnpackUint32 (data.byte 7) (data.byte 6) (data.byte 5) (data.byte 4))
  else none

section Parse

variable {frame : CanFrame} {status : MotorStatus} {profile : MotorProfile}

/-- The private parser also writes the id it finds in the frame: for the status of the motor that
the frame is for, that changes nothing. -/
theorem ProtocolPrivate.parseFeedback_eq
    (hown : rsGetMotorId (frame.canId &&& canEffMask) = status.motorId) :
    ProtocolPrivate.parseFeedback frame status profile =
      (ProtocolPrivate.reading frame profile).map fun r => r.apply status := by
  unfold ProtocolPrivate.parseFeedback ProtocolPrivate.reading
  simp only [hown]
  cases FrameType.ofByte (rsGetMsgType (frame.canId &&& canEffMask)) <;> rfl

theorem ProtocolMIT.parseFeedback_eq :
    ProtocolMIT.parseFeedback frame status profile =
      (ProtocolMIT.reading frame status.motorId profile).map fun r => r.apply status := by
  unfold ProtocolMIT.parseFeedback ProtocolMIT.reading
  by_cases htelemetry : mode frame = 0 ∧ frame.data.byte 0 = status.motorId
  · simp only [if_pos htelemetry]
    rfl
  simp only [if_neg htelemetry]
  by_cases hmcu : mode frame = 0 ∧ rxId frame = status.motorId
  · simp only [if_pos hmcu]
    rfl
  simp only [if_neg hmcu]
  by_cases hparam : (mode frame = 3 ∨ mode frame = 4) ∧ rxId frame = status.motorId
  · simp only [if_pos hparam]
    rfl
  · simp only [if_neg hparam]
    rfl

/-- The types that the private parser has a branch for. -/
theorem ProtocolPrivate.reading_isSome_iff : (ProtocolPrivate.reading frame profile).isSome = true ↔
    ¬ ProtocolPrivate.Unsupported frame := by
  simp only [ProtocolPrivate.reading, ProtocolPrivate.Unsupported]
  cases FrameType.ofByte (rsGetMsgType (frame.canId &&& canEffMask)) <;> simp

/-- A private frame is accepted when its type has a branch and it names the motor. -/
theorem ProtocolPrivate.isFeedbackFrame_iff (profile : MotorProfile) {motorId : Byte} :
    ProtocolPrivate.isFeedbackFrame frame motorId = true ↔
      frame.canId &&& canEffFlag ≠ 0 ∧ rsGetMotorId (frame.canId &&& canEffMask) = motorId ∧
        (ProtocolPrivate.reading frame profile).isSome = true := by
  rw [isFeedbackFrame_iff_addressed, reading_isSome_iff, Addressed, and_assoc]

/-- The private classifier names the branch. -/
theorem ProtocolPrivate.getResponseType_eq {r : Reading}
    (h : ProtocolPrivate.reading frame profile = some r) :
    ProtocolPrivate.getResponseType frame = r.branch.type := by
  have htype : ProtocolPrivate.getResponseType frame =
      FrameType.ofByte (rsGetMsgType (frame.canId &&& canEffMask)) := rfl
  simp only [ProtocolPrivate.reading] at h
  rw [htype]
  cases hcase : FrameType.ofByte (rsGetMsgType (frame.canId &&& canEffMask)) <;>
    rw [hcase] at h <;> cases h <;> rfl

end Parse

/-! ### The last byte of a frame -/

theorem rsUnpackUint16_low (msb lsb : Byte) : (rsUnpackUint16 msb lsb).setWidth 8 = lsb := by
  ext i hi
  unfold rsUnpackUint16
  interval_cases i <;> simp

theorem rsUnpackUint32_high (b0 b1 b2 b3 : Byte) :
    (rsUnpackUint32 b0 b1 b2 b3 >>> 24).setWidth 8 = b0 := by
  ext i hi
  unfold rsUnpackUint32
  interval_cases i <;> simp

theorem rsUnpackUint64_low (data : Payload) : (rsUnpackUint64 data).setWidth 8 = data.byte 7 := by
  obtain ⟨val, hval⟩ : ∃ val : BitVec 64,
      rsUnpackUint64 data = (val <<< 8) ||| (data.byte 7).setWidth 64 := by
    have hdata : data = data.pop.push (data.byte 7) := (Vector.push_pop_back data).symm
    refine ⟨data.pop.foldl (fun val b => (val <<< 8) ||| b.setWidth 64) 0, ?_⟩
    conv_lhs => rw [hdata]
    unfold rsUnpackUint64
    rw [Vector.foldl_push]
  rw [hval]
  ext i hi
  interval_cases i <;> simp

theorem rsMathDecodeTemp_injective : Function.Injective rsMathDecodeTemp := by
  intro raw raw' h
  unfold rsMathDecodeTemp at h
  rw [ExtRat.mul_fin, ExtRat.mul_fin] at h
  have hq := ExtRat.fin.inj h
  refine BitVec.eq_of_toNat_eq (Nat.cast_injective (R := ℚ) ?_)
  linarith

/-- The frame with another last byte. -/
def CanFrame.touchLast (frame : CanFrame) : CanFrame :=
  { frame with data := frame.data.setByte 7 (frame.data.byte 7 + 1) }

theorem touchLast_byte (frame : CanFrame) {i : Fin 8} (hi : i ≠ 7) :
    frame.touchLast.data.byte i = frame.data.byte i :=
  Vector.getElem_set_ne (7 : Fin 8).isLt i.isLt fun h => hi (Fin.ext h.symm)

theorem touchLast_byte_seven (frame : CanFrame) :
    frame.touchLast.data.byte 7 ≠ frame.data.byte 7 := by
  unfold CanFrame.touchLast
  rw [Payload.byte_setByte]
  simp

/-- Every branch of the private parser reads the last byte. -/
theorem ProtocolPrivate.reading_touchLast {frame : CanFrame} {profile : MotorProfile} {r : Reading}
    (hr : ProtocolPrivate.reading frame profile = some r) (status : MotorStatus) :
    ∃ r', ProtocolPrivate.reading frame.touchLast profile = some r' ∧
      ∀ connected, { r'.apply status with isConnected := connected } ≠
        { r.apply status with isConnected := connected } := by
  have hlast := touchLast_byte_seven frame
  unfold ProtocolPrivate.reading at hr ⊢
  have hid : frame.touchLast.canId = frame.canId := rfl
  simp only [hid] at hr ⊢
  cases htype : FrameType.ofByte (rsGetMsgType (frame.canId &&& canEffMask)) with
  | feedback =>
      simp only [htype] at hr ⊢
      cases hr
      -- The low byte of the temperature.
      refine ⟨_, rfl, fun connected h => hlast ?_⟩
      have htemp := rsMathDecodeTemp_injective (congrArg MotorStatus.temperature h)
      exact (rsUnpackUint16_low ..).symm.trans
        ((congrArg (fun w : BitVec 16 => w.setWidth 8) htemp).trans (rsUnpackUint16_low ..))
  | fault =>
      simp only [htype] at hr ⊢
      cases hr
      -- The high byte of the warning value.
      refine ⟨_, rfl, fun connected h => hlast ?_⟩
      have hwarning := congrArg MotorStatus.warningValue h
      exact (rsUnpackUint32_high ..).symm.trans
        ((congrArg (fun w : BitVec 32 => (w >>> 24).setWidth 8) hwarning).trans
          (rsUnpackUint32_high ..))
  | readParam =>
      simp only [htype] at hr ⊢
      cases hr
      -- The high byte of the payload.
      refine ⟨_, rfl, fun connected h => hlast ?_⟩
      have hpayload := congrArg MotorStatus.readParamPayload h
      exact (rsUnpackUint32_high ..).symm.trans
        ((congrArg (fun w : BitVec 32 => (w >>> 24).setWidth 8) hpayload).trans
          (rsUnpackUint32_high ..))
  | info =>
      simp only [htype] at hr ⊢
      cases hr
      -- The low byte of the MCU id.
      refine ⟨_, rfl, fun connected h => hlast ?_⟩
      have hmcu := congrArg MotorStatus.mcuId h
      exact (rsUnpackUint64_low _).symm.trans
        ((congrArg (fun w : BitVec 64 => w.setWidth 8) hmcu).trans (rsUnpackUint64_low _))
  | _ => simp [htype] at hr

end Robstride
