import Robstride.Sdk.Scaling

/-!
# Sdk — Private protocol

`protocol_private.h` and `protocol_private.cpp`: 29-bit extended frames, whose id is
`type << 24 | data << 8 | motor`.

`parseFeedback` returns the status it leaves, `none` where the code returns `false`; the code
writes no field before it returns `false`.
-/

namespace Robstride

open Support (ExtRat)

/-! ### Bit packing -/

/-- Type, data area and motor id side by side in an extended id. -/
def rsHwPackCanId (type : FrameType) (motorId : Byte) (dataArea : BitVec 16) : BitVec 32 :=
  ((type.toByte.setWidth 32 <<< 24) ||| (dataArea.setWidth 32 <<< 8) ||| motorId.setWidth 32) |||
    canEffFlag

/-- A frame of eight zero bytes. -/
def rsHwCreateFrame (canId : BitVec 32) : CanFrame where
  canId := canId
  canDlc := canMaxDlen
  data := zeroPayload

/-- In a reply the motor's id is the low byte of the data area. -/
def rsGetMotorId (canId : BitVec 32) : Byte := ((canId >>> 8) &&& 0xFF).setWidth 8

/-- The type byte of an id. -/
def rsGetMsgType (canId : BitVec 32) : Byte := ((canId >>> 24) &&& 0xFF).setWidth 8

/-- The phase, in bits 22 and 23 of a feedback id. -/
def rsUnpackState (rxId : BitVec 32) : MotorState :=
  .ofBits (((rxId >>> 22) &&& 0x03).setWidth 2)

/-- The six error bits of a feedback id. -/
def rsUnpackErrorMask (rxId : BitVec 32) : Byte := ((rxId >>> 16) &&& 0x3F).setWidth 8

/-- A disable frame with 0 stops the motor. -/
def rsPayloadStop : Byte := 0x00

/-- A disable frame with 1 clears its error. -/
def rsPayloadClearError : Byte := 0x01

/-- A zero-position frame carries a 1. -/
def rsPayloadSetZero : Byte := 0x01

namespace ProtocolPrivate

/-! ### Replies -/

/-- An extended frame of the motor, of a type that `parse_feedback` reads.  The length is not
looked at. -/
def isFeedbackFrame (frame : CanFrame) (motorId : Byte) : Bool :=
  if frame.canId &&& canEffFlag = 0 then false
  else
    let rxId := frame.canId &&& canEffMask
    let rxMotorId := rsGetMotorId rxId
    let type := FrameType.ofByte (rsGetMsgType rxId)
    rxMotorId == motorId &&
      (type == .feedback || type == .fault || type == .readParam || type == .info)

/-- A reply's fields into the status, by its type. -/
def parseFeedback (frame : CanFrame) (status : MotorStatus) (profile : MotorProfile) :
    Option MotorStatus :=
  let rxId := frame.canId &&& canEffMask
  let data := frame.data
  match FrameType.ofByte (rsGetMsgType rxId) with
  | .feedback =>
      some { status with
        state := rsUnpackState rxId
        errorMask := rsUnpackErrorMask rxId
        angle := rsMathDecodeAngle (rsUnpackUint16 (data.byte 0) (data.byte 1))
        velocity :=
          rsMathDecodeVelocity (rsUnpackUint16 (data.byte 2) (data.byte 3)) profile.velocityLimit
        torque :=
          rsMathDecodeTorque (rsUnpackUint16 (data.byte 4) (data.byte 5)) profile.torqueLimit
        temperature := rsMathDecodeTemp (rsUnpackUint16 (data.byte 6) (data.byte 7))
        motorId := rsGetMotorId rxId }
  | .fault =>
      some { status with
        faultValue := rsUnpackUint32 (data.byte 3) (data.byte 2) (data.byte 1) (data.byte 0)
        warningValue := rsUnpackUint32 (data.byte 7) (data.byte 6) (data.byte 5) (data.byte 4)
        motorId := rsGetMotorId rxId }
  | .readParam =>
      some { status with
        readParamIndex := rsUnpackUint16 (data.byte 1) (data.byte 0)
        readParamPayload := rsUnpackUint32 (data.byte 7) (data.byte 6) (data.byte 5) (data.byte 4)
        motorId := rsGetMotorId rxId }
  | .info =>
      some { status with
        mcuId := rsUnpackUint64 data
        motorId := rsGetMotorId rxId }
  | _ => none

/-- The type byte, whatever it is. -/
def getResponseType (frame : CanFrame) : FrameType :=
  let rxId := frame.canId &&& canEffMask
  .ofByte (((rxId >>> 24) &&& 0xFF).setWidth 8)

/-- `INFO`: the private ping asks for the MCU id. -/
def pingResponseType : FrameType := .info

/-! ### Commands -/

/-- `ENABLE`, with the host id in the data area as in every frame but the control one. -/
def encodeEnable (motorId hostId : Byte) : CanFrame :=
  rsHwCreateFrame (rsHwPackCanId .enable motorId (hostId.setWidth 16))

/-- `DISABLE` with payload 0. -/
def encodeStop (motorId hostId : Byte) : CanFrame :=
  let frame := rsHwCreateFrame (rsHwPackCanId .disable motorId (hostId.setWidth 16))
  { frame with data := frame.data.setByte 0 rsPayloadStop }

/-- `DISABLE` with payload 1. -/
def encodeClearError (motorId hostId : Byte) : CanFrame :=
  let frame := rsHwCreateFrame (rsHwPackCanId .disable motorId (hostId.setWidth 16))
  { frame with data := frame.data.setByte 0 rsPayloadClearError }

/-- `INFO`. -/
def encodePing (motorId hostId : Byte) : CanFrame :=
  rsHwCreateFrame (rsHwPackCanId .info motorId (hostId.setWidth 16))

/-- `ZERO_POS` with payload 1. -/
def encodeSetZero (motorId hostId : Byte) : CanFrame :=
  let frame := rsHwCreateFrame (rsHwPackCanId .zeroPos motorId (hostId.setWidth 16))
  { frame with data := frame.data.setByte 0 rsPayloadSetZero }

/-- The five raw fields of a control frame. -/
structure RawControl where
  torque : BitVec 16
  position : BitVec 16
  velocity : BitVec 16
  kp : BitVec 16
  kd : BitVec 16
  deriving DecidableEq

/-- The scaling half of `encode_mit_control`. -/
def scaleMitControl (torque pos vel kp kd : ExtRat) (profile : MotorProfile) :
    Option RawControl := do
  let torqueRaw ← rsMathEncodeTorque torque profile.torqueLimit
  let positionRaw ← rsMathEncodeAngle pos
  let velocityRaw ← rsMathEncodeVelocity vel profile.velocityLimit
  let kpRaw ← rsMathEncodeKp kp
  let kdRaw ← rsMathEncodeKd kd
  return ⟨torqueRaw, positionRaw, velocityRaw, kpRaw, kdRaw⟩

/-- The packing half of `encode_mit_control`. -/
def packMitControl (motorId : Byte) (raw : RawControl) : CanFrame :=
  let frame := rsHwCreateFrame (rsHwPackCanId .control motorId raw.torque)
  let data := rsHwPutBe16 frame.data 0 raw.position
  let data := rsHwPutBe16 data 2 raw.velocity
  let data := rsHwPutBe16 data 4 raw.kp
  let data := rsHwPutBe16 data 6 raw.kd
  { frame with data := data }

/-- `CONTROL`: the torque in the data area, where other frames have the host id, and the rest in
the payload. -/
def encodeMitControl (motorId _hostId : Byte) (torque pos vel kp kd : ExtRat)
    (profile : MotorProfile) : Option CanFrame :=
  (scaleMitControl torque pos vel kp kd profile).map (packMitControl motorId)

/-- `READ_PARAM`: the parameter's id in the first two bytes. -/
def encodeReadParam (motorId hostId : Byte) (param : BitVec 16) : CanFrame :=
  let frame := rsHwCreateFrame (rsHwPackCanId .readParam motorId (hostId.setWidth 16))
  { frame with data := rsHwPutLe16 frame.data 0 param }

/-- `WRITE_PARAM`: the parameter's id in the first two bytes, its value in the last four. -/
def encodeWriteParam (motorId hostId : Byte) (param : BitVec 16) (rawPayload : BitVec 32) :
    CanFrame :=
  let frame := rsHwCreateFrame (rsHwPackCanId .writeParam motorId (hostId.setWidth 16))
  { frame with data := rsHwPutLe32 (rsHwPutLe16 frame.data 0 param) 4 rawPayload }

end ProtocolPrivate

end Robstride
