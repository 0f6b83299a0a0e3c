import Robstride.Protocol.Commands

/-!
# Protocol — Fields of a control frame

What `encode_mit_control` puts in a frame, for both protocols: each raw value is the truncation of
a number in the range of its field, so nothing is lost in the cast and nothing leaks into a
neighbour; the fields, the motor id and the kind of frame read back (`control_frames_carry_fields`).
A frame therefore determines the motor id and the raw values, and nothing else of the call.
-/

namespace Robstride

open Support

/-- Frames are the same exactly when what they carry is, where a frame determines it. -/
theorem packed_eq_iff {R : Type} {pack : Byte → R → CanFrame} {C : Byte → R → CanFrame → Prop}
    {o₁ o₂ : Option R} {m₁ m₂ : Byte}
    (h₁ : ∃ raw frame, o₁ = some raw ∧ o₁.map (pack m₁) = some frame ∧ C m₁ raw frame)
    (h₂ : ∃ raw frame, o₂ = some raw ∧ o₂.map (pack m₂) = some frame ∧ C m₂ raw frame)
    (hunique : ∀ {n₁ n₂ raw₁ raw₂ frame}, C n₁ raw₁ frame → C n₂ raw₂ frame →
      n₁ = n₂ ∧ raw₁ = raw₂) :
    o₁.map (pack m₁) = o₂.map (pack m₂) ↔ m₁ = m₂ ∧ o₁ = o₂ := by
  obtain ⟨raw₁, f₁, hraw₁, hf₁, hc₁⟩ := h₁
  obtain ⟨raw₂, f₂, hraw₂, hf₂, hc₂⟩ := h₂
  constructor
  · intro h
    have hframe : f₁ = f₂ := Option.some.inj (hf₁.symm.trans (h.trans hf₂))
    obtain ⟨hm, hraw⟩ := hunique (hframe ▸ hc₁) hc₂
    exact ⟨hm, by rw [hraw₁, hraw₂, hraw]⟩
  · rintro ⟨rfl, hraw⟩
    rw [hraw]

/-! ### Private protocol -/

namespace ProtocolPrivate

/-- The raw fields of a control frame: torque in bits 23..8 of the id, then four big-endian 16-bit
words. -/
def readMitControl (frame : CanFrame) : RawControl where
  torque := ((frame.canId >>> 8) &&& 0xFFFF).setWidth 16
  position := rsUnpackUint16 (frame.data.byte 0) (frame.data.byte 1)
  velocity := rsUnpackUint16 (frame.data.byte 2) (frame.data.byte 3)
  kp := rsUnpackUint16 (frame.data.byte 4) (frame.data.byte 5)
  kd := rsUnpackUint16 (frame.data.byte 6) (frame.data.byte 7)

/-- The frame carries the motor id and the raw values, all of them in range, as a control frame. -/
structure Carries (motorId : Byte) (raw : RawControl) (frame : CanFrame) : Prop where
  inRange : raw.Truncates
  fields : readMitControl frame = raw
  motor : frame.canId.setWidth 8 = motorId
  type : rsGetMsgType (frame.canId &&& canEffMask) = FrameType.control.toByte
  extended : frame.canId &&& canEffFlag ≠ 0

theorem dataArea_pack (type : FrameType) (motorId : Byte) (dataArea : BitVec 16) :
    ((rsHwPackCanId type motorId dataArea >>> 8) &&& 0xFFFF).setWidth 16 = dataArea := by
  ext i hi
  unfold rsHwPackCanId canEffFlag
  interval_cases i <;> simp

theorem motorId_pack (type : FrameType) (motorId : Byte) (dataArea : BitVec 16) :
    (rsHwPackCanId type motorId dataArea).setWidth 8 = motorId := by
  ext i hi
  unfold rsHwPackCanId canEffFlag
  interval_cases i <;> simp

theorem extended_pack (type : FrameType) (motorId : Byte) (dataArea : BitVec 16) :
    rsHwPackCanId type motorId dataArea &&& canEffFlag ≠ 0 := by
  intro h
  have hbit : (rsHwPackCanId type motorId dataArea &&& canEffFlag).getLsbD 31 = false := by
    rw [h]
    rfl
  simp [rsHwPackCanId, canEffFlag] at hbit

theorem readMitControl_pack (motorId : Byte) (raw : RawControl) :
    readMitControl (packMitControl motorId raw) = raw :=
  (RawControl.mk.injEq ..).mpr ⟨dataArea_pack .control motorId raw.torque,
    ProtocolMIT.rsUnpackUint16_put raw.position, ProtocolMIT.rsUnpackUint16_put raw.velocity,
    ProtocolMIT.rsUnpackUint16_put raw.kp, ProtocolMIT.rsUnpackUint16_put raw.kd⟩

/-- The raw values of a setpoint. -/
def rawOf (l : Limits) (s : Setpoint) : Option RawControl :=
  scaleMitControl (.fin s.torque) (.fin s.pos) (.fin s.vel) (.fin s.kp) (.fin s.kd) l.profile

theorem encode_eq_map (l : Limits) (s : Setpoint) (motorId hostId : Byte) :
    (Command.mitControl s).encode .priv motorId hostId l.profile =
      (rawOf l s).map (packMitControl motorId) := rfl

/-- Every finite setpoint at positive limits has a frame that carries its raw values. -/
theorem encode_carries (l : Limits) (s : Setpoint) (motorId hostId : Byte) :
    ∃ raw frame, rawOf l s = some raw ∧
      (Command.mitControl s).encode .priv motorId hostId l.profile = some frame ∧
      Carries motorId raw frame := by
  obtain ⟨raw, hraw⟩ := exists_raw l s
  have hraw' : rawOf l s = some raw := hraw
  refine ⟨raw, packMitControl motorId raw, hraw', ?_, ?_⟩
  · rw [encode_eq_map, hraw', Option.map_some]
  · exact ⟨scaleMitControl_truncates hraw, readMitControl_pack motorId raw,
      motorId_pack .control motorId raw.torque, rsGetMsgType_pack .control motorId raw.torque,
      extended_pack .control motorId raw.torque⟩

/-- What a frame carries, it carries alone. -/
theorem Carries.unique {m₁ m₂ : Byte} {raw₁ raw₂ : RawControl} {frame : CanFrame}
    (h₁ : Carries m₁ raw₁ frame) (h₂ : Carries m₂ raw₂ frame) : m₁ = m₂ ∧ raw₁ = raw₂ :=
  ⟨h₁.motor.symm.trans h₂.motor, h₁.fields.symm.trans h₂.fields⟩

theorem encode_same_iff (l₁ l₂ : Limits) (s₁ s₂ : Setpoint) (m₁ m₂ h₁ h₂ : Byte) :
    (Command.mitControl s₁).encode .priv m₁ h₁ l₁.profile =
        (Command.mitControl s₂).encode .priv m₂ h₂ l₂.profile ↔
      m₁ = m₂ ∧ rawOf l₁ s₁ = rawOf l₂ s₂ :=
  packed_eq_iff (encode_carries l₁ s₁ m₁ h₁) (encode_carries l₂ s₂ m₂ h₂) Carries.unique

end ProtocolPrivate

/-! ### MIT protocol -/

namespace ProtocolMIT

/-- The frame carries the motor id and the raw values, all of them in range, as a standard frame. -/
structure Carries (motorId : Byte) (raw : RawControl) (frame : CanFrame) : Prop where
  inRange : raw.Truncates
  fits : raw.Fits
  fields : readMitControl frame.data = raw
  motor : frame.canId.setWidth 8 = motorId
  standard : frame.canId.toNat < 2 ^ 11

theorem motorId_standard (motorId : Byte) : (motorId.setWidth 32).toNat < 2 ^ 11 := by
  have hlt := motorId.isLt
  rw [BitVec.toNat_setWidth]
  omega

/-- The raw fields of a setpoint within the limits. -/
def rawOf (l : Limits) (s : Setpoint) : Option RawControl :=
  scaleMitControl (.fin s.torque) (.fin s.pos) (.fin s.vel) (.fin s.kp) (.fin s.kd) l.profile

theorem encode_eq_map (l : Limits) (s : Setpoint) (motorId hostId : Byte) :
    (Command.mitControl s).encode .mit motorId hostId l.profile =
      (rawOf l s).map (packMitControl motorId) := rfl

theorem encode_carries (l : Limits) (s : Setpoint) (motorId hostId : Byte) :
    ∃ raw frame, rawOf l s = some raw ∧
      (Command.mitControl s).encode .mit motorId hostId l.profile = some frame ∧
      Carries motorId raw frame := by
  obtain ⟨raw, hraw, hfits, -⟩ := scaleMitControl_spec l s
  have hraw' : rawOf l s = some raw := hraw
  have hid : (motorId.setWidth 32).setWidth 8 = motorId := by
    rw [BitVec.setWidth_setWidth_of_le motorId (show 8 ≤ 32 by norm_num), BitVec.setWidth_eq]
  refine ⟨raw, packMitControl motorId raw, hraw', ?_, ?_⟩
  · rw [encode_eq_map, hraw', Option.map_some]
  · exact ⟨scaleMitControl_truncates hraw, hfits, readMitControl_pack motorId hfits, hid,
      motorId_standard motorId⟩

theorem Carries.unique {m₁ m₂ : Byte} {raw₁ raw₂ : RawControl} {frame : CanFrame}
    (h₁ : Carries m₁ raw₁ frame) (h₂ : Carries m₂ raw₂ frame) : m₁ = m₂ ∧ raw₁ = raw₂ :=
  ⟨h₁.motor.symm.trans h₂.motor, h₁.fields.symm.trans h₂.fields⟩

theorem encode_same_iff (l₁ l₂ : Limits) (s₁ s₂ : Setpoint) (m₁ m₂ h₁ h₂ : Byte) :
    (Command.mitControl s₁).encode .mit m₁ h₁ l₁.profile =
        (Command.mitControl s₂).encode .mit m₂ h₂ l₂.profile ↔
      m₁ = m₂ ∧ rawOf l₁ s₁ = rawOf l₂ s₂ :=
  packed_eq_iff (encode_carries l₁ s₁ m₁ h₁) (encode_carries l₂ s₂ m₂ h₂) Carries.unique

end ProtocolMIT

/-! ### Both -/

/-- **A control frame carries its fields**, under both protocols, for every motor and host id,
finite setpoint and positive limits; and two calls produce the same frame exactly when motor ids
and raw values coincide. -/
theorem control_frames_carry_fields :
    (∀ (l : Limits) (s : Setpoint) (motorId hostId : Byte), ∃ raw frame,
      ProtocolPrivate.rawOf l s = some raw ∧
      (Command.mitControl s).encode .priv motorId hostId l.profile = some frame ∧
      ProtocolPrivate.Carries motorId raw frame) ∧
    (∀ (l : Limits) (s : Setpoint) (motorId hostId : Byte), ∃ raw frame,
      ProtocolMIT.rawOf l s = some raw ∧
      (Command.mitControl s).encode .mit motorId hostId l.profile = some frame ∧
      ProtocolMIT.Carries motorId raw frame) ∧
    ∀ (l₁ l₂ : Limits) (s₁ s₂ : Setpoint) (m₁ m₂ h₁ h₂ : Byte),
      ((Command.mitControl s₁).encode .priv m₁ h₁ l₁.profile =
          (Command.mitControl s₂).encode .priv m₂ h₂ l₂.profile ↔
        m₁ = m₂ ∧ ProtocolPrivate.rawOf l₁ s₁ = ProtocolPrivate.rawOf l₂ s₂) ∧
      ((Command.mitControl s₁).encode .mit m₁ h₁ l₁.profile =
          (Command.mitControl s₂).encode .mit m₂ h₂ l₂.profile ↔
        m₁ = m₂ ∧ ProtocolMIT.rawOf l₁ s₁ = ProtocolMIT.rawOf l₂ s₂) :=
  ⟨ProtocolPrivate.encode_carries, ProtocolMIT.encode_carries, fun l₁ l₂ s₁ s₂ m₁ m₂ h₁ h₂ =>
    ⟨ProtocolPrivate.encode_same_iff l₁ l₂ s₁ s₂ m₁ m₂ h₁ h₂,
      ProtocolMIT.encode_same_iff l₁ l₂ s₁ s₂ m₁ m₂ h₁ h₂⟩⟩

end Robstride
