import Mathlib.Tactic.IntervalCases
import Robstride.Sdk.Protocol

/-!
# Protocol — Frame layout

Where the encoders put what: the fields of a private id, the mode and the target of an MIT id,
and the raw fields of a control payload read back from the frame that packs them.

The 12-bit packer masks nothing above bit 11, so the fields of an MIT control payload read back
only for raw values below `4096` (`readMitControl_pack`).
-/

namespace Robstride

/-! ### Private ids -/

/-- Bits 28..24 of a packed id are the type's low five bits. -/
theorem rsGetMsgType_pack (type : FrameType) (motorId : Byte) (dataArea : BitVec 16) :
    rsGetMsgType (rsHwPackCanId type motorId dataArea &&& canEffMask) = type.toByte &&& 0x1F := by
  ext i hi
  unfold rsGetMsgType rsHwPackCanId canEffMask canEffFlag
  interval_cases i <;> simp

/-- Bits 15..8 of a packed id are the data area's low byte. -/
theorem rsGetMotorId_pack (type : FrameType) (motorId : Byte) (dataArea : BitVec 16) :
    rsGetMotorId (rsHwPackCanId type motorId dataArea &&& canEffMask) = dataArea.setWidth 8 := by
  ext i hi
  unfold rsGetMotorId rsHwPackCanId canEffMask canEffFlag
  interval_cases i <;> simp

/-- Ids of types that differ in their low five bits differ. -/
theorem pack_ne_of_type {t₁ t₂ : FrameType} {m₁ m₂ : Byte} {d₁ d₂ : BitVec 16}
    (h : t₁.toByte &&& 0x1F ≠ t₂.toByte &&& 0x1F) :
    rsHwPackCanId t₁ m₁ d₁ ≠ rsHwPackCanId t₂ m₂ d₂ := by
  intro he
  rw [← rsGetMsgType_pack t₁ m₁ d₁, ← rsGetMsgType_pack t₂ m₂ d₂, he] at h
  exact h rfl

namespace ProtocolMIT

/-! ### MIT ids -/

/-- The id `mode << 8 | motor`. -/
theorem mode_command (m : BitVec 32) (motorId dlc : Byte) (data : Payload) :
    mode ⟨(m <<< 8) ||| motorId.setWidth 32, dlc, data⟩ = (m &&& 0x07).setWidth 8 := by
  ext i hi
  unfold mode
  interval_cases i <;> simp

theorem mode_motorId (motorId dlc : Byte) (data : Payload) :
    mode ⟨motorId.setWidth 32, dlc, data⟩ = 0 := by
  ext i hi
  unfold mode
  interval_cases i <;> simp

@[simp] theorem mode_createMitFrame (motorId : Byte) (payload : Payload) :
    mode (createMitFrame motorId payload) = 0 := mode_motorId motorId canMaxDlen payload

@[simp] theorem mode_packMitControl (motorId : Byte) (raw : RawControl) :
    mode (packMitControl motorId raw) = 0 := mode_motorId motorId canMaxDlen _

@[simp] theorem mode_encodeWriteParam (motorId hostId : Byte) (param : BitVec 16)
    (rawPayload : BitVec 32) : mode (encodeWriteParam motorId hostId param rawPayload) = 4 :=
  mode_command 4 motorId canMaxDlen _

/-! ### MIT control payloads -/

/-- The raw fields of a control payload: a big-endian 16-bit word, then four 12-bit fields. -/
def readMitControl (data : Payload) : RawControl where
  position := rsUnpackUint16 (data.byte 0) (data.byte 1)
  velocity := rsUnpackMit12bitVel (data.byte 2) (data.byte 3)
  kp := rsUnpackMit12bitTorque (data.byte 3) (data.byte 4)
  kd := rsUnpackMit12bitVel (data.byte 5) (data.byte 6)
  torque := rsUnpackMit12bitTorque (data.byte 6) (data.byte 7)

/-- The four 12-bit fields fit in 12 bits. -/
structure RawControl.Fits (raw : RawControl) : Prop where
  velocity : raw.velocity.toNat ≤ 4095
  kp : raw.kp.toNat ≤ 4095
  kd : raw.kd.toNat ≤ 4095
  torque : raw.torque.toNat ≤ 4095

/-- A 16-bit value up to 4095 is a 12-bit value. -/
theorem exists_setWidth {v : BitVec 16} (h : v.toNat ≤ 4095) :
    ∃ x : BitVec 12, v = x.setWidth 16 := by
  refine ⟨v.setWidth 12, BitVec.eq_of_toNat_eq ?_⟩
  simp only [BitVec.toNat_setWidth]
  omega

theorem rsUnpackUint16_put (p : BitVec 16) :
    rsUnpackUint16 ((p >>> 8).setWidth 8) ((p &&& 0xFF).setWidth 8) = p := by
  ext i hi
  unfold rsUnpackUint16
  interval_cases i <;> simp

/-- The upper of two straddling fields. -/
theorem rsUnpackMit12bitVel_put (x y : BitVec 12) :
    rsUnpackMit12bitVel ((x.setWidth 16 >>> 4).setWidth 8)
      ((((x.setWidth 16 &&& 0x0F) <<< 4) ||| (y.setWidth 16 >>> 8)).setWidth 8) =
      x.setWidth 16 := by
  ext i hi
  unfold rsUnpackMit12bitVel
  interval_cases i <;> simp

/-- The lower half of the byte that two fields share. -/
theorem shared_low (x y : BitVec 12) :
    (((((x.setWidth 16 &&& 0x0F) <<< 4) ||| (y.setWidth 16 >>> 8) : BitVec 16).setWidth 8).setWidth
      16 &&& 0x0F : BitVec 16) = y.setWidth 16 >>> 8 := by
  ext i hi
  interval_cases i <;> simp

/-- The lower of two straddling fields. -/
theorem rsUnpackMit12bitTorque_put (x y : BitVec 12) :
    rsUnpackMit12bitTorque
      ((((x.setWidth 16 &&& 0x0F) <<< 4) ||| (y.setWidth 16 >>> 8)).setWidth 8)
      ((y.setWidth 16 &&& 0xFF).setWidth 8) = y.setWidth 16 := by
  rw [rsUnpackMit12bitTorque, shared_low]
  ext i hi
  interval_cases i <;> simp

/-- **The fields read back** from the payload that packs them. -/
theorem readMitControl_pack (motorId : Byte) {raw : RawControl} (h : raw.Fits) :
    readMitControl (packMitControl motorId raw).data = raw := by
  obtain ⟨p, v, kp, kd, t⟩ := raw
  obtain ⟨v, rfl⟩ := exists_setWidth h.velocity
  obtain ⟨kp, rfl⟩ := exists_setWidth h.kp
  obtain ⟨kd, rfl⟩ := exists_setWidth h.kd
  obtain ⟨t, rfl⟩ := exists_setWidth h.torque
  exact (RawControl.mk.injEq ..).mpr ⟨rsUnpackUint16_put p, rsUnpackMit12bitVel_put v kp,
    rsUnpackMit12bitTorque_put v kp, rsUnpackMit12bitVel_put kd t, rsUnpackMit12bitTorque_put kd t⟩

end ProtocolMIT

end Robstride
