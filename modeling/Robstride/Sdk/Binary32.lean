import Robstride.Sdk.Mit
import Robstride.Sdk.Private
import Robstride.Support.Floats

/-!
# Sdk — Scaling in binary32

The scaling functions of `protocol_private.h` and `protocol_mit.h` as a machine computes them:
each literal is its nearest `float` and each operation rounds.  What a decoder subtracts from a
product, a compiler may fold into one operation with one rounding (`contract`).

`Robstride.Sdk.Scaling` has the same functions over exact numbers.
-/

namespace Robstride

open Support BinaryFormat.Number

/-- IEEE binary32, the `float` of the source. -/
def binary32 : BinaryFormat := ⟨24, -126, 127, by decide, by decide⟩

/-- `float`: a number, an infinity or NaN of the binary32 format. -/
abbrev Binary32 := binary32.Number

namespace Binary32

/-- `RS_PI`: the `float` nearest to the literal. -/
def rsPi : Binary32 := literal Robstride.rsPi

/-! ### The shapes -/

/-- `(uint16_t)((std::clamp(x, -limit, limit) + limit) * steps / span)`. -/
def encodeSigned (steps : ℕ) (span x limit : Binary32) : Option (BitVec 16) := do
  let c ← x.clamp? (-limit) limit
  let y ← ((c + limit) * literal steps).div? span
  y.val.toUInt? 16

/-- `(uint16_t)(std::clamp(x, 0.0f, max) * steps / max)`. -/
def encodeUnsigned (steps : ℕ) (max x : Binary32) : Option (BitVec 16) := do
  let c ← x.clamp? (literal 0) max
  let y ← (c * literal steps).div? max
  y.val.toUInt? 16

/-- `raw * scale - offset`, in two operations or in one. -/
def decodeAffine (contract : Bool) (raw : BitVec 16) (scale offset : Binary32) : Binary32 :=
  if contract then ofExt (.fin raw.toNat * scale.val - offset.val)
  else literal raw.toNat * scale - offset

section

variable (contract : Bool)

/-! ### `protocol_private.h` -/

/-- `rs_math_decode_angle`; `8.0f * RS_PI / 65535.0f` is a constant. -/
def rsMathDecodeAngle (raw : BitVec 16) : Binary32 :=
  decodeAffine contract raw ((literal 8 * rsPi).divLiteral 65535) (literal 4 * rsPi)

/-- `rs_math_decode_velocity`. -/
def rsMathDecodeVelocity (raw : BitVec 16) (limit : Binary32) : Binary32 :=
  decodeAffine contract raw ((literal 2 * limit).divLiteral 65535) limit

/-- `rs_math_decode_torque`. -/
def rsMathDecodeTorque (raw : BitVec 16) (limit : Binary32) : Binary32 :=
  decodeAffine contract raw ((literal 2 * limit).divLiteral 65535) limit

/-- `rs_math_decode_temp`: a product alone, with nothing to contract. -/
def rsMathDecodeTemp (raw : BitVec 16) : Binary32 := literal raw.toNat * literal 0.1

/-- `rs_math_encode_torque`. -/
def rsMathEncodeTorque (torque limit : Binary32) : Option (BitVec 16) :=
  encodeSigned 65535 (literal 2 * limit) torque limit

/-- `rs_math_encode_angle`. -/
def rsMathEncodeAngle (pos : Binary32) : Option (BitVec 16) :=
  encodeSigned 65535 (literal 2 * (literal 4 * rsPi)) pos (literal 4 * rsPi)

/-- `rs_math_encode_velocity`. -/
def rsMathEncodeVelocity (vel limit : Binary32) : Option (BitVec 16) :=
  encodeSigned 65535 (literal 2 * limit) vel limit

/-- `rs_math_encode_kp`. -/
def rsMathEncodeKp (kp : Binary32) : Option (BitVec 16) := encodeUnsigned 65535 (literal 500) kp

/-- `rs_math_encode_kd`. -/
def rsMathEncodeKd (kd : Binary32) : Option (BitVec 16) := encodeUnsigned 65535 (literal 5) kd

/-! ### `protocol_mit.h` -/

/-- `rs_mit_math_decode_angle`. -/
def rsMitMathDecodeAngle (raw : BitVec 16) : Binary32 :=
  decodeAffine contract raw ((literal 25.14).divLiteral 65535) (literal 12.57)

/-- `rs_mit_math_decode_velocity`. -/
def rsMitMathDecodeVelocity (raw : BitVec 16) : Binary32 :=
  decodeAffine contract raw ((literal 66).divLiteral 4095) (literal 33)

/-- `rs_mit_math_decode_torque`. -/
def rsMitMathDecodeTorque (raw : BitVec 16) (limit : Binary32) : Binary32 :=
  decodeAffine contract raw ((literal 2 * limit).divLiteral 4095) limit

/-- `rs_mit_math_encode_angle`. -/
def rsMitMathEncodeAngle (pos : Binary32) : Option (BitVec 16) :=
  encodeSigned 65535 (literal 2 * (literal 4 * rsPi)) pos (literal 4 * rsPi)

/-- `rs_mit_math_encode_velocity`. -/
def rsMitMathEncodeVelocity (vel : Binary32) : Option (BitVec 16) :=
  encodeSigned 4095 (literal 66) vel (literal 33)

/-- `rs_mit_math_encode_torque`. -/
def rsMitMathEncodeTorque (torque limit : Binary32) : Option (BitVec 16) :=
  encodeSigned 4095 (literal 2 * limit) torque limit

/-- `rs_mit_math_encode_kp`. -/
def rsMitMathEncodeKp (kp : Binary32) : Option (BitVec 16) := encodeUnsigned 4095 (literal 500) kp

/-- `rs_mit_math_encode_kd`. -/
def rsMitMathEncodeKd (kd : Binary32) : Option (BitVec 16) := encodeUnsigned 4095 (literal 5) kd

end

/-! ### Control frames -/

/-- `MotorProfile`. -/
structure Profile where
  torqueLimit : Binary32
  velocityLimit : Binary32

/-- The values of a profile. -/
def Profile.exact (p : Profile) : MotorProfile := ⟨p.torqueLimit.val, p.velocityLimit.val⟩

/-- The scaling half of `ProtocolPrivate::encode_mit_control`. -/
def scalePrivate (torque pos vel kp kd : Binary32) (profile : Profile) :
    Option ProtocolPrivate.RawControl := do
  let torqueRaw ← rsMathEncodeTorque torque profile.torqueLimit
  let positionRaw ← rsMathEncodeAngle pos
  let velocityRaw ← rsMathEncodeVelocity vel profile.velocityLimit
  let kpRaw ← rsMathEncodeKp kp
  let kdRaw ← rsMathEncodeKd kd
  return ⟨torqueRaw, positionRaw, velocityRaw, kpRaw, kdRaw⟩

/-- `ProtocolPrivate::encode_mit_control`. -/
def encodePrivate (motorId _hostId : Byte) (torque pos vel kp kd : Binary32) (profile : Profile) :
    Option CanFrame :=
  (scalePrivate torque pos vel kp kd profile).map (ProtocolPrivate.packMitControl motorId)

/-- The scaling half of `ProtocolMIT::encode_mit_control`. -/
def scaleMit (torque pos vel kp kd : Binary32) (profile : Profile) :
    Option ProtocolMIT.RawControl := do
  let pRaw ← rsMitMathEncodeAngle pos
  let vRaw ← rsMitMathEncodeVelocity vel
  let kpRaw ← rsMitMathEncodeKp kp
  let kdRaw ← rsMitMathEncodeKd kd
  let tRaw ← rsMitMathEncodeTorque torque profile.torqueLimit
  return ⟨pRaw, vRaw, kpRaw, kdRaw, tRaw⟩

/-- `ProtocolMIT::encode_mit_control`. -/
def encodeMit (motorId _hostId : Byte) (torque pos vel kp kd : Binary32) (profile : Profile) :
    Option CanFrame :=
  (scaleMit torque pos vel kp kd profile).map (ProtocolMIT.packMitControl motorId)

end Binary32

end Robstride
