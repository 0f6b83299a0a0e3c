import Robstride.Sdk.Scaling

/-!
# Sdk — MIT protocol

`protocol_mit.h` and `protocol_mit.cpp`: 11-bit standard frames, whose id is
`mode << 8 | motor` for a command and for a parameter reply.

`parseFeedback` returns the status it leaves, `none` where the code returns `false`; the code
writes no field before it returns `false`.
-/

namespace Robstride

open Support (ExtRat)

/-! ### 12-bit packing -/

/-- Four 12-bit values at `ptr = &frame.data[2]`. -/
def rsHwPutMit12bitControl (data : Payload) (vRaw kpRaw kdRaw tRaw : BitVec 16) : Payload :=
  (((((data.setByte 2 ((vRaw >>> 4).setWidth 8)).setByte
    3 ((((vRaw &&& 0x0F) <<< 4) ||| (kpRaw >>> 8)).setWidth 8)).setByte
    4 ((kpRaw &&& 0xFF).setWidth 8)).setByte
    5 ((kdRaw >>> 4).setWidth 8)).setByte
    6 ((((kdRaw &&& 0x0F) <<< 4) ||| (tRaw >>> 8)).setWidth 8)).setByte
    7 ((tRaw &&& 0xFF).setWidth 8)

/-- The 12-bit value at the first of two bytes. -/
def rsUnpackMit12bitVel (b0 b1 : Byte) : BitVec 16 :=
  (b0.setWidth 16 <<< 4) ||| (b1 >>> 4).setWidth 16

/-- The 12-bit value ending at the second of two bytes. -/
def rsUnpackMit12bitTorque (b0 b1 : Byte) : BitVec 16 :=
  ((b0.setWidth 16 &&& 0x0F) <<< 8) ||| b1.setWidth 16

namespace ProtocolMIT

/-- A standard frame to the motor. -/
def createMitFrame (motorId : Byte) (payload : Payload) : CanFrame where
  canId := motorId.setWidth 32
  canDlc := canMaxDlen
  data := payload

/-! ### Replies -/

/-- `(frame.can_id >> 8) & 0x07`. -/
def mode (frame : CanFrame) : Byte := ((frame.canId >>> 8) &&& 0x07).setWidth 8

/-- `frame.can_id & 0xFF`. -/
def rxId (frame : CanFrame) : Byte := (frame.canId &&& 0xFF).setWidth 8

/-- A full standard frame with the motor's id in its low id byte or, in mode 0, in its first byte.
-/
def isFeedbackFrame (frame : CanFrame) (motorId : Byte) : Bool :=
  if frame.canId &&& canEffFlag ≠ 0 then false
  else if frame.canDlc < 8 then false
  else if mode frame = 0 ∧ frame.data.byte 0 = motorId then true
  else if rxId frame = motorId then true
  else false

/-- A reply's fields into the status, by its mode and first byte. -/
def parseFeedback (frame : CanFrame) (status : MotorStatus) (profile : MotorProfile) :
    Option MotorStatus :=
  let data := frame.data
  if mode frame = 0 ∧ data.byte 0 = status.motorId then
    some { status with
      angle := rsMitMathDecodeAngle (rsUnpackUint16 (data.byte 1) (data.byte 2))
      velocity := rsMitMathDecodeVelocity (rsUnpackMit12bitVel (data.byte 3) (data.byte 4))
      torque := rsMitMathDecodeTorque (rsUnpackMit12bitTorque (data.byte 4) (data.byte 5))
        profile.torqueLimit
      temperature := .fin (rsUnpackUint16 (data.byte 6) (data.byte 7)).toNat * .fin 0.1
      state := .run }
  else if mode frame = 0 ∧ rxId frame = status.motorId then
    some { status with mcuId := rsUnpackUint64 data }
  else if (mode frame = 3 ∨ mode frame = 4) ∧ rxId frame = status.motorId then
    some { status with
      readParamIndex := rsUnpackUint16 (data.byte 1) (data.byte 0)
      readParamPayload := rsUnpackUint32 (data.byte 7) (data.byte 6) (data.byte 5) (data.byte 4) }
  else none

/-- Only parameter frames are told apart. -/
def getResponseType (frame : CanFrame) : FrameType :=
  if mode frame = 3 ∨ mode frame = 4 then .readParam else .feedback

/-- `READ_PARAM`: the ping reads the run mode. -/
def pingResponseType : FrameType := .readParam

/-! ### Commands -/

/-- Seven `0xFF` bytes and the command byte. -/
def specialPayload (command : Byte) : Payload :=
  #v[0xFF, 0xFF, 0xFF, 0xFF, 0xFF, 0xFF, 0xFF, command]

/-- The special payload that ends in `FC`. -/
def encodeEnable (motorId _hostId : Byte) : CanFrame :=
  createMitFrame motorId (specialPayload 0xFC)

/-- The special payload that ends in `FD`. -/
def encodeStop (motorId _hostId : Byte) : CanFrame :=
  createMitFrame motorId (specialPayload 0xFD)

/-- The special payload that ends in `FB`. -/
def encodeClearError (motorId _hostId : Byte) : CanFrame :=
  createMitFrame motorId (specialPayload 0xFB)

/-- A read of `RUN_MODE`. -/
def encodePing (motorId _hostId : Byte) : CanFrame where
  canId := (3 <<< 8) ||| motorId.setWidth 32
  canDlc := canMaxDlen
  data := rsHwPutLe16 zeroPayload 0 ParamId.runMode.id

/-- The special payload that ends in `FE`. -/
def encodeSetZero (motorId _hostId : Byte) : CanFrame :=
  createMitFrame motorId (specialPayload 0xFE)

/-- The five raw fields of a control frame. -/
structure RawControl where
  position : BitVec 16
  velocity : BitVec 16
  kp : BitVec 16
  kd : BitVec 16
  torque : BitVec 16
  deriving DecidableEq

/-- The scaling half of `encode_mit_control`. -/
def scaleMitControl (torque pos vel kp kd : ExtRat) (profile : MotorProfile) :
    Option RawControl := do
  let pRaw ← rsMitMathEncodeAngle pos
  let vRaw ← rsMitMathEncodeVelocity vel
  let kpRaw ← rsMitMathEncodeKp kp
  let kdRaw ← rsMitMathEncodeKd kd
  let tRaw ← rsMitMathEncodeTorque torque profile.torqueLimit
  return ⟨pRaw, vRaw, kpRaw, kdRaw, tRaw⟩

/-- The packing half of `encode_mit_control`. -/
def packMitControl (motorId : Byte) (raw : RawControl) : CanFrame where
  canId := motorId.setWidth 32
  canDlc := canMaxDlen
  data := rsHwPutMit12bitControl (rsHwPutBe16 zeroPayload 0 raw.position)
    raw.velocity raw.kp raw.kd raw.torque

/-- The five setpoints in one payload of 16- and 12-bit fields. -/
def encodeMitControl (motorId _hostId : Byte) (torque pos vel kp kd : ExtRat)
    (profile : MotorProfile) : Option CanFrame :=
  (scaleMitControl torque pos vel kp kd profile).map (packMitControl motorId)

/-- Mode 3, the parameter's id in the first two bytes. -/
def encodeReadParam (motorId _hostId : Byte) (param : BitVec 16) : CanFrame where
  canId := (3 <<< 8) ||| motorId.setWidth 32
  canDlc := canMaxDlen
  data := rsHwPutLe16 zeroPayload 0 param

/-- Mode 4, the parameter's id in the first two bytes, its value in the last four. -/
def encodeWriteParam (motorId _hostId : Byte) (param : BitVec 16) (rawPayload : BitVec 32) :
    CanFrame where
  canId := (4 <<< 8) ||| motorId.setWidth 32
  canDlc := canMaxDlen
  data := rsHwPutLe32 (rsHwPutLe16 zeroPayload 0 param) 4 rawPayload

end ProtocolMIT

end Robstride
