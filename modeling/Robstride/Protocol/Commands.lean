import Robstride.Protocol.Layout
import Robstride.Protocol.Setpoints

/-!
# Protocol — Commands on the wire

When two commands of different kinds produce one frame.

* Private protocol: never.  The kinds differ in the type field of the id, but for stop and
  clear-error, which share it and differ in the first payload byte.
* MIT protocol: the four special commands share the id of the control frame and differ from it
  in the payload only.  Their payloads are `0xFF` seven times and a last byte of `0xFB` to
  `0xFE`.  A control frame has such a payload exactly when position, velocity and both gains are
  saturated at the top and the torque's raw value is one of the four below `0xFFF` that end in
  the command byte (`commands_same_frame_iff`).
-/

namespace Robstride

open Support Support.ExtRat

/-- Limits that are positive rationals. -/
structure Limits where
  torque : ℚ
  velocity : ℚ
  torque_pos : 0 < torque
  velocity_pos : 0 < velocity

/-- The profile with these limits. -/
def Limits.profile (l : Limits) : MotorProfile := ⟨.fin l.torque, .fin l.velocity⟩

/-- A finite setpoint of `send_mit_control`. -/
structure Setpoint where
  torque : ℚ
  pos : ℚ
  vel : ℚ
  kp : ℚ
  kd : ℚ

/-- A state-changing command with its arguments. -/
inductive Command where
  | enable
  | stop
  | clearError
  | setZero
  | writeParam (param : BitVec 16) (payload : BitVec 32)
  | mitControl (s : Setpoint)

/-- The commands without their arguments. -/
inductive CommandKind where
  | enable
  | stop
  | clearError
  | setZero
  | writeParam
  | mitControl
  deriving DecidableEq

namespace Command

/-- What is left of a command without its arguments. -/
def kind : Command → CommandKind
  | .enable => .enable
  | .stop => .stop
  | .clearError => .clearError
  | .setZero => .setZero
  | .writeParam _ _ => .writeParam
  | .mitControl _ => .mitControl

/-- The frame the protocol's encoder produces. -/
def encode (p : Protocol) (motorId hostId : Byte) (profile : MotorProfile) :
    Command → Option CanFrame
  | .enable => some (p.strategy.encodeEnable motorId hostId)
  | .stop => some (p.strategy.encodeStop motorId hostId)
  | .clearError => some (p.strategy.encodeClearError motorId hostId)
  | .setZero => some (p.strategy.encodeSetZero motorId hostId)
  | .writeParam param payload => some (p.strategy.encodeWriteParam motorId hostId param payload)
  | .mitControl s =>
      p.strategy.encodeMitControl motorId hostId (.fin s.torque) (.fin s.pos) (.fin s.vel)
        (.fin s.kp) (.fin s.kd) profile

/-- The last payload byte of an MIT special command. -/
def specialByte : Command → Option Byte
  | .enable => some 0xFC
  | .stop => some 0xFD
  | .clearError => some 0xFB
  | .setZero => some 0xFE
  | .writeParam _ _ | .mitControl _ => none

/-- The first command is a control command whose position, velocity and gains are at or above
the top of their ranges and whose torque scales into the unit interval above `0xF00` plus the
special byte of the second. -/
def Saturates (l : Limits) : Command → Command → Prop
  | .mitControl s, c =>
      4 * rsPi ≤ s.pos ∧ 33 ≤ s.vel ∧ 500 ≤ s.kp ∧ 5 ≤ s.kd ∧
        ∃ b, c.specialByte = some b ∧
          3840 + b.toNat ≤ (s.torque + l.torque) * 4095 / (2 * l.torque) ∧
          (s.torque + l.torque) * 4095 / (2 * l.torque) < 3840 + b.toNat + 1
  | _, _ => False

/-- Only a control command saturates, and only to a special command. -/
theorem Saturates.shape {l : Limits} {c₁ c₂ : Command} (h : c₁.Saturates l c₂) :
    c₁.kind = .mitControl ∧ ∃ b, c₂.specialByte = some b := by
  cases c₁ with
  | mitControl s =>
      obtain ⟨-, -, -, -, b, hb, -⟩ := h
      exact ⟨rfl, b, hb⟩
  | enable | stop | clearError | setZero | writeParam _ _ => exact h.elim

theorem kind_of_special {c : Command} {b : Byte} (h : c.specialByte = some b) :
    c.kind ≠ .mitControl ∧ c.kind ≠ .writeParam := by
  cases c with
  | writeParam _ _ | mitControl _ => cases h
  | enable | stop | clearError | setZero => exact ⟨by decide, by decide⟩

/-- A command that is no parameter write is special or a control command. -/
theorem special_or_control {c : Command} (h : c.kind ≠ .writeParam) :
    (∃ b, c.specialByte = some b) ∨ ∃ s, c = .mitControl s := by
  cases c with
  | writeParam _ _ => exact absurd rfl h
  | mitControl s => exact .inr ⟨s, rfl⟩
  | enable | stop | clearError | setZero => exact .inl ⟨_, rfl⟩

end Command

/-! ### Private protocol -/

namespace ProtocolPrivate

/-- The type field of each kind's frame. -/
def typeOf : CommandKind → FrameType
  | .enable => .enable
  | .stop | .clearError => .disable
  | .setZero => .zeroPos
  | .writeParam => .writeParam
  | .mitControl => .control

/-- At positive limits the five setpoints scale. -/
theorem exists_raw (l : Limits) (s : Setpoint) :
    ∃ raw, scaleMitControl (.fin s.torque) (.fin s.pos) (.fin s.vel) (.fin s.kp) (.fin s.kd)
      l.profile = some raw :=
  Option.isSome_iff_exists.mp (scaleMitControl_isSome.mpr
    ⟨⟨nofun, nofun, nofun, nofun, nofun⟩, ⟨_, l.torque_pos, rfl⟩, ⟨_, l.velocity_pos, rfl⟩⟩)

/-- Every command has a frame, and its id packs the kind's type. -/
theorem encode_id (l : Limits) (motorId hostId : Byte) (c : Command) :
    ∃ f d, c.encode .priv motorId hostId l.profile = some f ∧
      f.canId = rsHwPackCanId (typeOf c.kind) motorId d := by
  cases c with
  | mitControl s =>
      obtain ⟨raw, hraw⟩ := exists_raw l s
      exact ⟨packMitControl motorId raw, raw.torque,
        by simp [Command.encode, Protocol.strategy, encodeMitControl, hraw], rfl⟩
  | enable | stop | clearError | setZero | writeParam _ _ =>
      exact ⟨_, hostId.setWidth 16, rfl, rfl⟩

/-- Kinds of one type are equal, or stop and clear-error. -/
theorem typeOf_inj {k₁ k₂ : CommandKind} (hne : k₁ ≠ k₂)
    (h : (typeOf k₁).toByte &&& 0x1F = (typeOf k₂).toByte &&& 0x1F) :
    (k₁ = .stop ∧ k₂ = .clearError) ∨ (k₁ = .clearError ∧ k₂ = .stop) := by
  cases k₁ <;> cases k₂ <;> revert hne h <;> decide

/-- The first payload byte tells stop from clear-error. -/
theorem encodeStop_ne_encodeClearError (m₁ m₂ h₁ h₂ : Byte) :
    encodeStop m₁ h₁ ≠ encodeClearError m₂ h₂ := by
  intro h
  have h₀ : (encodeStop m₁ h₁).data.byte 0 = (encodeClearError m₂ h₂).data.byte 0 := by rw [h]
  simp [encodeStop, encodeClearError, rsPayloadStop, rsPayloadClearError] at h₀

theorem encode_ne (l : Limits) (motorId h₁ h₂ : Byte) {c₁ c₂ : Command} (hk : c₁.kind ≠ c₂.kind) :
    c₁.encode .priv motorId h₁ l.profile ≠ c₂.encode .priv motorId h₂ l.profile := by
  obtain ⟨f₁, d₁, he₁, hid₁⟩ := encode_id l motorId h₁ c₁
  obtain ⟨f₂, d₂, he₂, hid₂⟩ := encode_id l motorId h₂ c₂
  intro h
  have hf : f₁ = f₂ := by rw [he₁, he₂] at h; exact Option.some.inj h
  have htype : (typeOf c₁.kind).toByte &&& 0x1F = (typeOf c₂.kind).toByte &&& 0x1F := by
    by_contra hne
    exact pack_ne_of_type hne (by rw [← hid₁, ← hid₂, hf])
  rcases typeOf_inj hk htype with ⟨k₁, k₂⟩ | ⟨k₁, k₂⟩
  · cases c₁ <;> cases k₁
    cases c₂ <;> cases k₂
    exact encodeStop_ne_encodeClearError _ _ _ _ (Option.some.inj h)
  · cases c₁ <;> cases k₁
    cases c₂ <;> cases k₂
    exact encodeStop_ne_encodeClearError _ _ _ _ (Option.some.inj h).symm

end ProtocolPrivate

/-! ### MIT protocol -/

namespace ProtocolMIT

/-- The raw fields of the special payload that ends in `b`. -/
def saturated (b : Byte) : RawControl := ⟨0xFFFF, 0x0FFF, 0x0FFF, 0x0FFF, 0x0F00 ||| b.setWidth 16⟩

theorem readMitControl_specialPayload (b : Byte) :
    readMitControl (specialPayload b) = saturated b := by
  have htorque : rsUnpackMit12bitTorque 0xFF b = 0x0F00 ||| b.setWidth 16 := by
    ext i hi
    unfold rsUnpackMit12bitTorque
    interval_cases i <;> simp
  have hupper : rsUnpackMit12bitVel 0xFF 0xFF = 0x0FFF := rfl
  have hlower : rsUnpackMit12bitTorque 0xFF 0xFF = 0x0FFF := rfl
  have hword : rsUnpackUint16 0xFF 0xFF = 0xFFFF := rfl
  exact (RawControl.mk.injEq ..).mpr ⟨hword, hupper, hlower, hupper, htorque⟩

/-- The two bytes the torque field reaches. -/
theorem saturated_bytes (b : Byte) :
    ((((0x0FFF &&& 0x0F) <<< 4) ||| ((0x0F00 ||| b.setWidth 16 : BitVec 16) >>> 8)).setWidth 8 :
      Byte) = 0xFF ∧ (((0x0F00 ||| b.setWidth 16 : BitVec 16) &&& 0xFF).setWidth 8 : Byte) = b := by
  constructor
  · ext i hi
    interval_cases i <;> simp
  · ext i hi
    interval_cases i <;> simp

theorem packMitControl_saturated (motorId b : Byte) :
    packMitControl motorId (saturated b) = createMitFrame motorId (specialPayload b) := by
  obtain ⟨h₆, h₇⟩ := saturated_bytes b
  have hdata : (packMitControl motorId (saturated b)).data = specialPayload b := by
    refine Vector.ext fun i hi => ?_
    interval_cases i
    case «6» => exact h₆
    case «7» => exact h₇
    all_goals simp [packMitControl, rsHwPutMit12bitControl, rsHwPutBe16, Payload.setByte, saturated,
      specialPayload]
  exact congrArg (CanFrame.mk _ _) hdata

/-- A control frame is the special frame that ends in `b` exactly at the saturated fields. -/
theorem packMitControl_eq_special_iff {motorId b : Byte} {raw : RawControl} (h : raw.Fits) :
    packMitControl motorId raw = createMitFrame motorId (specialPayload b) ↔ raw = saturated b := by
  constructor
  · intro he
    rw [← readMitControl_pack motorId h, he]
    exact readMitControl_specialPayload b
  · rintro rfl
    exact packMitControl_saturated motorId b

/-- The raw fields of a setpoint fit, and when they are saturated. -/
theorem scaleMitControl_spec (l : Limits) (s : Setpoint) :
    ∃ raw, scaleMitControl (.fin s.torque) (.fin s.pos) (.fin s.vel) (.fin s.kp) (.fin s.kd)
        l.profile = some raw ∧ raw.Fits ∧
      ((raw.position.toNat = 65535 ∧ raw.velocity.toNat = 4095 ∧ raw.kp.toNat = 4095 ∧
          raw.kd.toNat = 4095) ↔ 4 * rsPi ≤ s.pos ∧ 33 ≤ s.vel ∧ 500 ≤ s.kp ∧ 5 ≤ s.kd) ∧
      ∀ k : ℕ, 0 < k → k < 4095 → (raw.torque.toNat = k ↔
        k ≤ (s.torque + l.torque) * 4095 / (2 * l.torque) ∧
          (s.torque + l.torque) * 4095 / (2 * l.torque) < k + 1) := by
  obtain ⟨p, hp, -, hptop, -⟩ := encodeSigned_levels 65535 (L := 4 * rsPi) s.pos (by norm_num)
    (le_refl 65535) (by norm_num [rsPi])
  obtain ⟨v, hv, hvle, hvtop, -⟩ := encodeSigned_levels 4095 (L := 33) s.vel
    (by norm_num) (by norm_num) (by norm_num)
  obtain ⟨kp, hkp, hkple, hkptop⟩ := encodeUnsigned_levels 4095 500 s.kp
    (by norm_num) (by norm_num) (by norm_num)
  obtain ⟨kd, hkd, hkdle, hkdtop⟩ := encodeUnsigned_levels 4095 5 s.kd
    (by norm_num) (by norm_num) (by norm_num)
  obtain ⟨t, ht, htle, -, htlev⟩ := encodeSigned_levels 4095 s.torque
    (by norm_num) (by norm_num) l.torque_pos
  have h66 : (66 : ℚ) = 2 * 33 := by norm_num
  refine ⟨⟨p, v, kp, kd, t⟩, ?_, ⟨hvle, hkple, hkdle, htle⟩, ?_, htlev⟩
  · simp [scaleMitControl, Limits.profile, rsMitMathEncodeTorque, rsMitMathEncodeAngle,
      rsMitMathEncodeVelocity, rsMitMathEncodeKp, rsMitMathEncodeKd, h66, ht, hp, hv, hkp, hkd]
  · rw [hptop, hvtop, hkptop, hkdtop]

/-- The fields are the saturated ones when the four upper ones are at the top and the torque is
`0xF00` and the byte. -/
theorem eq_saturated_iff {raw : RawControl} {b : Byte} :
    raw = saturated b ↔ (raw.position.toNat = 65535 ∧ raw.velocity.toNat = 4095 ∧
      raw.kp.toNat = 4095 ∧ raw.kd.toNat = 4095) ∧ raw.torque.toNat = 3840 + b.toNat := by
  have hb : ((0x0F00 : BitVec 16) ||| b.setWidth 16).toNat = 3840 + b.toNat := by
    revert b
    decide +kernel
  have h₁₆ : (0xFFFF : BitVec 16).toNat = 65535 := rfl
  have h₁₂ : (0x0FFF : BitVec 16).toNat = 4095 := rfl
  obtain ⟨p, v, kp, kd, t⟩ := raw
  simp only [saturated, RawControl.mk.injEq, ← BitVec.toNat_inj, hb, h₁₆, h₁₂, and_assoc]

/-- A control command has the frame of a special command exactly when it saturates. -/
theorem encode_control_eq_iff (l : Limits) (motorId hostId : Byte) (s : Setpoint) {c : Command}
    {b : Byte} (hb : c.specialByte = some b) :
    (Command.mitControl s).encode .mit motorId hostId l.profile =
        some (createMitFrame motorId (specialPayload b)) ↔ (Command.mitControl s).Saturates l c := by
  obtain ⟨raw, hraw, hfits, htop, htorque⟩ := scaleMitControl_spec l s
  have hlt : 0 < 3840 + b.toNat ∧ 3840 + b.toNat < 4095 := by
    cases c <;> cases hb <;> decide
  have henc : (Command.mitControl s).encode .mit motorId hostId l.profile =
      some (packMitControl motorId raw) := by
    simp [Command.encode, Protocol.strategy, encodeMitControl, hraw]
  rw [henc, Option.some.injEq, packMitControl_eq_special_iff hfits, eq_saturated_iff, htop,
    htorque _ hlt.1 hlt.2]
  simp only [Command.Saturates, hb, Option.some.injEq, exists_eq_left', Nat.cast_add,
    Nat.cast_ofNat, and_assoc]

/-- A special command's frame. -/
theorem encode_special (l : Limits) (motorId hostId : Byte) {c : Command} {b : Byte}
    (hb : c.specialByte = some b) :
    c.encode .mit motorId hostId l.profile =
      some (createMitFrame motorId (specialPayload b)) := by
  cases c <;> cases hb <;> rfl

/-- Every command has a frame, in mode 4 when it is a parameter write and in mode 0 when not. -/
theorem encode_mode (l : Limits) (motorId hostId : Byte) (c : Command) :
    ∃ f, c.encode .mit motorId hostId l.profile = some f ∧
      mode f = if c.kind = .writeParam then 4 else 0 := by
  cases c with
  | enable | stop | clearError | setZero => exact ⟨_, rfl, mode_createMitFrame _ _⟩
  | writeParam param payload => exact ⟨_, rfl, mode_encodeWriteParam motorId hostId param payload⟩
  | mitControl s =>
      obtain ⟨raw, hraw, -⟩ := scaleMitControl_spec l s
      refine ⟨packMitControl motorId raw, ?_, mode_packMitControl _ _⟩
      simp [Command.encode, Protocol.strategy, encodeMitControl, hraw]

/-- The last byte tells the special commands apart. -/
theorem special_ne {c₁ c₂ : Command} {b₁ b₂ : Byte} (h₁ : c₁.specialByte = some b₁)
    (h₂ : c₂.specialByte = some b₂) (hk : c₁.kind ≠ c₂.kind) (motorId : Byte) :
    createMitFrame motorId (specialPayload b₁) ≠ createMitFrame motorId (specialPayload b₂) := by
  intro h
  have hbyte : (specialPayload b₁)[7] = (specialPayload b₂)[7] :=
    congrArg (fun f : CanFrame => f.data.byte 7) h
  have hb : b₁ = b₂ := hbyte
  subst hb
  cases c₁ <;> cases h₁ <;> cases c₂ <;> first | exact hk rfl | cases h₂

/-- A parameter write is in a mode of its own. -/
theorem writeParam_ne (l : Limits) (motorId h₁ h₂ : Byte) {c₁ c₂ : Command}
    (hw : c₁.kind = .writeParam) (hk : c₁.kind ≠ c₂.kind) :
    c₁.encode .mit motorId h₁ l.profile ≠ c₂.encode .mit motorId h₂ l.profile ∧
      ¬ c₁.Saturates l c₂ ∧ ¬ c₂.Saturates l c₁ := by
  obtain ⟨f₁, he₁, hm₁⟩ := encode_mode l motorId h₁ c₁
  obtain ⟨f₂, he₂, hm₂⟩ := encode_mode l motorId h₂ c₂
  refine ⟨fun h => ?_, fun h => ?_, fun h => ?_⟩
  · have hf : f₁ = f₂ := by rw [he₁, he₂] at h; exact Option.some.inj h
    rw [if_pos hw] at hm₁
    rw [if_neg (hw ▸ hk.symm), ← hf, hm₁] at hm₂
    exact absurd hm₂ (by decide)
  · rw [h.shape.1] at hw
    cases hw
  · obtain ⟨-, b, hb⟩ := h.shape
    exact (Command.kind_of_special hb).2 hw

/-- **When two commands share a frame, in the MIT protocol.** -/
theorem encode_eq_iff (l : Limits) (motorId h₁ h₂ : Byte) {c₁ c₂ : Command}
    (hk : c₁.kind ≠ c₂.kind) :
    c₁.encode .mit motorId h₁ l.profile = c₂.encode .mit motorId h₂ l.profile ↔
      c₁.Saturates l c₂ ∨ c₂.Saturates l c₁ := by
  by_cases hw₁ : c₁.kind = .writeParam
  · obtain ⟨hne, hs₁, hs₂⟩ := writeParam_ne l motorId h₁ h₂ hw₁ hk
    exact ⟨fun h => absurd h hne, fun h => (h.elim hs₁ hs₂).elim⟩
  by_cases hw₂ : c₂.kind = .writeParam
  · obtain ⟨hne, hs₂, hs₁⟩ := writeParam_ne l motorId h₂ h₁ hw₂ hk.symm
    exact ⟨fun h => absurd h.symm hne, fun h => (h.elim hs₁ hs₂).elim⟩
  rcases Command.special_or_control hw₁ with ⟨b₁, hb₁⟩ | ⟨s₁, rfl⟩ <;>
    rcases Command.special_or_control hw₂ with ⟨b₂, hb₂⟩ | ⟨s₂, rfl⟩
  · -- two special commands
    rw [encode_special l motorId h₁ hb₁, encode_special l motorId h₂ hb₂, Option.some.injEq]
    refine ⟨fun h => absurd h (special_ne hb₁ hb₂ hk motorId), ?_⟩
    rintro (h | h)
    · exact absurd h.shape.1 (Command.kind_of_special hb₁).1
    · exact absurd h.shape.1 (Command.kind_of_special hb₂).1
  · rw [encode_special l motorId h₁ hb₁, eq_comm, encode_control_eq_iff l motorId h₂ s₂ hb₁]
    refine ⟨.inr, fun h => h.resolve_left fun h' => ?_⟩
    obtain ⟨-, b, hb⟩ := h'.shape
    cases hb
  · rw [encode_special l motorId h₂ hb₂, encode_control_eq_iff l motorId h₁ s₁ hb₂]
    refine ⟨.inl, fun h => h.resolve_right fun h' => ?_⟩
    obtain ⟨-, b, hb⟩ := h'.shape
    cases hb
  · exact absurd rfl hk

end ProtocolMIT

/-! ### Both protocols -/

/-- **When two commands share a frame.**  Every command has a frame.  The frames of two commands
of different kinds are equal exactly when the protocol is MIT, one command is a control command
and it saturates to the payload of the other, a special command. -/
theorem commands_same_frame_iff (p : Protocol) (l : Limits) (motorId h₁ h₂ : Byte)
    {c₁ c₂ : Command} (hk : c₁.kind ≠ c₂.kind) :
    ∃ f₁ f₂, c₁.encode p motorId h₁ l.profile = some f₁ ∧
      c₂.encode p motorId h₂ l.profile = some f₂ ∧
      (f₁ = f₂ ↔ p = .mit ∧ (c₁.Saturates l c₂ ∨ c₂.Saturates l c₁)) := by
  cases p with
  | priv =>
      obtain ⟨f₁, -, he₁, -⟩ := ProtocolPrivate.encode_id l motorId h₁ c₁
      obtain ⟨f₂, -, he₂, -⟩ := ProtocolPrivate.encode_id l motorId h₂ c₂
      refine ⟨f₁, f₂, he₁, he₂, fun h => ?_, fun h => nomatch h.1⟩
      exact absurd (by rw [he₁, he₂, h]) (ProtocolPrivate.encode_ne l motorId h₁ h₂ hk)
  | mit =>
      obtain ⟨f₁, he₁, -⟩ := ProtocolMIT.encode_mode l motorId h₁ c₁
      obtain ⟨f₂, he₂, -⟩ := ProtocolMIT.encode_mode l motorId h₂ c₂
      refine ⟨f₁, f₂, he₁, he₂, ?_⟩
      have h := ProtocolMIT.encode_eq_iff l motorId h₁ h₂ hk
      rw [he₁, he₂, Option.some.injEq] at h
      rw [h]
      simp

/-- The limits of `PROFILE_RS00`. -/
def limitsRS00 : Limits := ⟨14, 33, by norm_num, by norm_num⟩

/-- Every setpoint at its limit but the torque, which is three steps below. -/
def saturatedSetpoint : Setpoint := ⟨14 * (2 * 4092 / 4095 - 1), 13, 33, 500, 5⟩

theorem saturatedSetpoint_saturates :
    (Command.mitControl saturatedSetpoint).Saturates limitsRS00 .enable := by
  have hbyte : (0xFC : Byte).toNat = 252 := rfl
  refine ⟨?_, ?_, ?_, ?_, 0xFC, rfl, ?_, ?_⟩ <;>
    norm_num [saturatedSetpoint, limitsRS00, rsPi, hbyte]

/-- A control frame is an enable frame: the kinds do not keep the frames apart. -/
theorem mitControl_is_enable :
    ¬ ∀ (p : Protocol) (l : Limits) (motorId hostId : Byte) (c₁ c₂ : Command),
      c₁.kind ≠ c₂.kind →
        c₁.encode p motorId hostId l.profile ≠ c₂.encode p motorId hostId l.profile := by
  intro h
  refine h .mit limitsRS00 1 0 (.mitControl saturatedSetpoint) .enable (by decide) ?_
  exact (ProtocolMIT.encode_eq_iff limitsRS00 1 0 0 (by decide)).mpr
    (.inl saturatedSetpoint_saturates)

/-- The two parts of the condition at a control and an enable command. -/
theorem commands_same_frame_at_saturation :
    ∃ f₁ f₂, (Command.mitControl saturatedSetpoint).encode .mit 1 0 limitsRS00.profile = some f₁ ∧
      Command.enable.encode .mit 1 0 limitsRS00.profile = some f₂ ∧
      (f₁ = f₂ ↔ (.mit : Protocol) = .mit ∧
        ((Command.mitControl saturatedSetpoint).Saturates limitsRS00 .enable ∨
          Command.enable.Saturates limitsRS00 (.mitControl saturatedSetpoint))) :=
  commands_same_frame_iff .mit limitsRS00 1 0 0 (by decide)

end Robstride
