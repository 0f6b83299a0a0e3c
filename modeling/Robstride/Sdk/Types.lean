import Robstride.Support.ExtRat

/-!
# Sdk — Types

`robstride_types.h`, and the CAN frame and flags of `linux/can.h`.

An enumeration is the inductive type of its enumerators.  Where the code casts an integer into
the enumeration, the type has a last constructor for the values that name no enumerator, and
the cast is a function (`ofByte`, `ofBits`); `toByte` and `toInt` are the casts back.

A float is an `ExtRat`: the exact rational it stands for, an infinity or NaN.  Where the code
copies a float's bytes, its bit pattern is carried beside its value (`CFloat`).
-/

namespace Robstride

open Support (ExtRat)

/-- `uint8_t`. -/
abbrev Byte := BitVec 8

/-! ### The CAN frame -/

/-- The payload array of a frame. -/
abbrev Payload := Vector Byte 8

/-- `data[i]`. -/
def Payload.byte (data : Payload) (i : Fin 8) : Byte := data[i]

/-- `data[i] = b`. -/
def Payload.setByte (data : Payload) (i : Fin 8) (b : Byte) : Payload := data.set i b

/-- The byte just written. -/
@[simp] theorem Payload.byte_setByte (data : Payload) (i : Fin 8) (b : Byte) :
    (data.setByte i b).byte i = b := Vector.getElem_set_self ..

/-- An index of a payload, or of a word in it, may be a literal. -/
instance neZero_five : NeZero 5 := ⟨by decide⟩
instance neZero_seven : NeZero 7 := ⟨by decide⟩
instance neZero_eight : NeZero 8 := ⟨by decide⟩

/-- `struct can_frame`. -/
structure CanFrame where
  canId : BitVec 32
  canDlc : Byte
  data : Payload
  deriving DecidableEq

/-- `CAN_EFF_FLAG`: the id is an extended one. -/
def canEffFlag : BitVec 32 := 0x80000000#32

/-- `CAN_EFF_MASK`: the 29 bits of an extended id. -/
def canEffMask : BitVec 32 := 0x1FFFFFFF#32

/-- `CAN_MAX_DLEN`. -/
def canMaxDlen : Byte := 8#8

/-- The payload of `struct can_frame frame{}`. -/
def zeroPayload : Payload := Vector.replicate 8 0#8

/-! ### Enumerations -/

/-- The protocol of a motor.  The constructor's `switch` takes the private protocol for every
other value. -/
inductive Protocol where
  | priv
  | mit
  deriving DecidableEq

/-- The operating modes.  `setup_mode` takes any `RunMode`, and an `enum class` holds every `int`.
-/
inductive RunMode where
  | operation
  | position
  | speed
  | current
  | positionCsp
  | other (raw : BitVec 32) (foreign : raw ∉ [0, 1, 2, 3, 5])
  deriving DecidableEq

/-- The integer behind a run mode. -/
def RunMode.toInt : RunMode → BitVec 32
  | .operation => 0
  | .position => 1
  | .speed => 2
  | .current => 3
  | .positionCsp => 5
  | .other raw _ => raw

/-- The phases of the motor's own state machine, which private feedback carries in two bits. -/
inductive MotorState where
  | reset
  | calibration
  | run
  | other (raw : BitVec 2)
  deriving DecidableEq

/-- `static_cast<MotorState>` of a two-bit field. -/
def MotorState.ofBits (b : BitVec 2) : MotorState :=
  if b = 0 then .reset else if b = 1 then .calibration else if b = 2 then .run else .other b

/-- What a call returns. -/
inductive Result where
  | success
  | errTimeout
  | errTransport
  | errNotConnected
  | errProtocolMismatch
  | errInvalidArgument
  | errNack
  | errDisconnected
  | errOverrun
  | errWriteFailed
  | errReadFailed
  | errMalformedFrame
  deriving DecidableEq

/-- The message types of the private protocol, which both protocols' replies are classed by. -/
inductive FrameType where
  | info
  | control
  | feedback
  | enable
  | disable
  | zeroPos
  | setId
  | readParam
  | writeParam
  | fault
  | saveParam
  | changeBaud
  | other (raw : Byte)
  deriving DecidableEq

/-- The byte behind a frame type. -/
def FrameType.toByte : FrameType → Byte
  | .info => 0
  | .control => 1
  | .feedback => 2
  | .enable => 3
  | .disable => 4
  | .zeroPos => 6
  | .setId => 7
  | .readParam => 17
  | .writeParam => 18
  | .fault => 21
  | .saveParam => 22
  | .changeBaud => 23
  | .other raw => raw

/-- `static_cast<FrameType>` of a byte. -/
def FrameType.ofByte (b : Byte) : FrameType :=
  if b = 0 then .info
  else if b = 1 then .control
  else if b = 2 then .feedback
  else if b = 3 then .enable
  else if b = 4 then .disable
  else if b = 6 then .zeroPos
  else if b = 7 then .setId
  else if b = 17 then .readParam
  else if b = 18 then .writeParam
  else if b = 21 then .fault
  else if b = 22 then .saveParam
  else if b = 23 then .changeBaud
  else .other b

/-! ### Parameters -/

/-- `TypedParam<T>` without its type argument. -/
structure TypedParam where
  id : BitVec 16
  deriving DecidableEq

namespace ParamId

/-- `RUN_MODE`: the operating mode, one byte. -/
def runMode : TypedParam := ⟨0x7005⟩

/-- `IQ_REF`: the current setpoint. -/
def iqRef : TypedParam := ⟨0x7006⟩

/-- `SPD_REF`: the velocity setpoint. -/
def spdRef : TypedParam := ⟨0x700A⟩

/-- `LOC_REF`: the position setpoint. -/
def locRef : TypedParam := ⟨0x7016⟩

/-- `LIMIT_SPD`: the velocity limit of the cyclic position mode. -/
def limitSpd : TypedParam := ⟨0x7017⟩

/-- `LIMIT_CUR`: the current limit of the speed mode. -/
def limitCur : TypedParam := ⟨0x7018⟩

/-- `ACC_RAD`: the acceleration of the speed mode. -/
def accRad : TypedParam := ⟨0x7022⟩

/-- `MAX_VEL`: the top velocity of the profile position mode. -/
def maxVel : TypedParam := ⟨0x7024⟩

/-- `ACC_SET`: the acceleration of the profile position mode. -/
def accSet : TypedParam := ⟨0x7025⟩

/-- `DEC_SET`: the deceleration of the profile position mode. -/
def decSet : TypedParam := ⟨0x702E⟩

end ParamId

/-! ### Structs -/

/-- The limits that scale a motor's torque and velocity. -/
structure MotorProfile where
  torqueLimit : ExtRat
  velocityLimit : ExtRat
  deriving DecidableEq

/-- The fields of `MotorStatus` that the modelled code reads or writes. -/
structure MotorStatus where
  motorId : Byte
  errorMask : Byte
  state : MotorState
  angle : ExtRat
  velocity : ExtRat
  torque : ExtRat
  temperature : ExtRat
  isConnected : Bool
  mcuId : BitVec 64
  faultValue : BitVec 32
  warningValue : BitVec 32
  readParamIndex : BitVec 16
  readParamPayload : BitVec 32
  unknownFrameCount : BitVec 32
  deriving DecidableEq

/-- The status the constructor of `Motor` leaves: every field zero but the id. -/
def MotorStatus.initial (motorId : Byte) : MotorStatus where
  motorId := motorId
  errorMask := 0
  state := .reset
  angle := .fin 0
  velocity := .fin 0
  torque := .fin 0
  temperature := .fin 0
  isConnected := false
  mcuId := 0
  faultValue := 0
  warningValue := 0
  readParamIndex := 0
  readParamPayload := 0
  unknownFrameCount := 0

/-! ### Serialization helpers -/

/-- A float with its bit pattern: `rs_hw_float_to_raw` reads the pattern, arithmetic and
comparisons read the value. -/
structure CFloat where
  raw : BitVec 32
  val : ExtRat
  deriving DecidableEq

/-- The bit pattern of a float, by `memcpy`. -/
def rsHwFloatToRaw (value : CFloat) : BitVec 32 := value.raw

/-- Two bytes as a 16-bit word, the high one first. -/
def rsUnpackUint16 (msb lsb : Byte) : BitVec 16 :=
  (msb.setWidth 16 <<< 8) ||| lsb.setWidth 16

/-- Four bytes as a 32-bit word, the highest first. -/
def rsUnpackUint32 (b0 b1 b2 b3 : Byte) : BitVec 32 :=
  (b0.setWidth 32 <<< 24) ||| (b1.setWidth 32 <<< 16) ||| (b2.setWidth 32 <<< 8) |||
    b3.setWidth 32

/-- The whole payload as a 64-bit word, the highest byte first. -/
def rsUnpackUint64 (data : Payload) : BitVec 64 :=
  data.foldl (fun val b => (val <<< 8) ||| b.setWidth 64) 0

/-- `ptr` is the index of the first of the two bytes written. -/
def rsHwPutBe16 (data : Payload) (ptr : Fin 7) (value : BitVec 16) : Payload :=
  (data.set ptr ((value >>> 8).setWidth 8)).set (ptr + 1) ((value &&& 0xFF).setWidth 8)

/-- A 16-bit word into the payload, the low byte first. -/
def rsHwPutLe16 (data : Payload) (ptr : Fin 7) (value : BitVec 16) : Payload :=
  (data.set ptr ((value &&& 0xFF).setWidth 8)).set (ptr + 1) ((value >>> 8).setWidth 8)

/-- `ptr` is the index of the first of the four bytes written. -/
def rsHwPutLe32 (data : Payload) (ptr : Fin 5) (value : BitVec 32) : Payload :=
  (((data.set ptr ((value &&& 0xFF).setWidth 8)).set
    (ptr + 1) (((value >>> 8) &&& 0xFF).setWidth 8)).set
    (ptr + 2) (((value >>> 16) &&& 0xFF).setWidth 8)).set
    (ptr + 3) ((value >>> 24).setWidth 8)

end Robstride
