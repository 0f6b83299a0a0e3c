import Robstride.Sdk.Protocol

/-!
# Protocol — Setpoints

When the five setpoints of a control frame can be scaled: exactly when none is NaN and the limits
that the protocol reads are positive rationals (`scaleMitControl_isSome`).  Then each raw field
is the truncation of a number in its range (`scaleMitControl_truncates`).
-/

namespace Robstride

open Support (ExtRat)
open Support.ExtRat

/-! ### One field -/

/-- A positive rational. -/
def Positive (x : ExtRat) : Prop := ∃ L : ℚ, 0 < L ∧ x = fin L

/-- What a signed setpoint encodes to is the truncation of a number in range. -/
theorem encodeSigned_truncates {steps : ℕ} {x limit : ExtRat} {raw : BitVec 16}
    (hsteps : steps ≤ 65535) (h : encodeSigned steps (fin 2 * limit) x limit = some raw) :
    IsTruncation steps raw := by
  obtain ⟨hx, L, hL, rfl⟩ :=
    (encodeSigned_defined_iff hsteps x limit).mp (Option.isSome_iff_exists.mpr ⟨raw, h⟩)
  obtain ⟨raw', hraw', htrunc⟩ := encodeSigned_spec hsteps hx hL
  rw [mul_fin, hraw'] at h
  exact Option.some.inj h ▸ htrunc

/-- What a gain encodes to is the truncation of a number in range. -/
theorem encodeUnsigned_truncates {steps : ℕ} {x : ExtRat} {max : ℚ} {raw : BitVec 16}
    (hsteps : steps ≤ 65535) (hmax : 0 < max) (h : encodeUnsigned steps (fin max) x = some raw) :
    IsTruncation steps raw := by
  have hx := (encodeUnsigned_defined_iff hsteps hmax x).mp (Option.isSome_iff_exists.mpr ⟨raw, h⟩)
  obtain ⟨raw', hraw', htrunc⟩ := encodeUnsigned_spec hsteps hx hmax
  rw [hraw'] at h
  exact Option.some.inj h ▸ htrunc

theorem positive_fin {L : ℚ} : Positive (fin L) ↔ 0 < L := by
  constructor
  · rintro ⟨L', hL', h⟩
    exact ExtRat.fin.inj h ▸ hL'
  · exact fun h => ⟨L, h, rfl⟩

/-- The setpoints whose limit is a constant. -/
theorem encodeSigned_const_isSome {steps : ℕ} (hsteps : steps ≤ 65535) {L : ℚ} (hL : 0 < L)
    (x : ExtRat) : (encodeSigned steps (fin (2 * L)) x (fin L)).isSome ↔ x ≠ nan := by
  rw [← mul_fin, encodeSigned_defined_iff hsteps]
  exact and_iff_left (positive_fin.mpr hL)

theorem encodeSigned_const_truncates {steps : ℕ} (hsteps : steps ≤ 65535) {L : ℚ} {x : ExtRat}
    {raw : BitVec 16} (h : encodeSigned steps (fin (2 * L)) x (fin L) = some raw) :
    IsTruncation steps raw := by
  rw [← mul_fin] at h
  exact encodeSigned_truncates hsteps h

theorem fourPi_pos : (0 : ℚ) < 4 * rsPi := by norm_num [rsPi]

theorem twice_thirtyThree : (66 : ℚ) = 2 * 33 := by norm_num

/-! ### The five fields -/

section

variable {α β : Type} (x₁ x₂ x₃ x₄ x₅ : Option α) (f : α → α → α → α → α → β)

/-- Five fields, each of which may have no value. -/
def five : Option β := do
  let a₁ ← x₁
  let a₂ ← x₂
  let a₃ ← x₃
  let a₄ ← x₄
  let a₅ ← x₅
  return f a₁ a₂ a₃ a₄ a₅

theorem five_isSome : (five x₁ x₂ x₃ x₄ x₅ f).isSome ↔
    x₁.isSome ∧ x₂.isSome ∧ x₃.isSome ∧ x₄.isSome ∧ x₅.isSome := by
  cases x₁ <;> cases x₂ <;> cases x₃ <;> cases x₄ <;> cases x₅ <;> simp [five]

theorem five_eq_some {y : β} (h : five x₁ x₂ x₃ x₄ x₅ f = some y) :
    ∃ a₁ a₂ a₃ a₄ a₅, x₁ = some a₁ ∧ x₂ = some a₂ ∧ x₃ = some a₃ ∧ x₄ = some a₄ ∧
      x₅ = some a₅ ∧ y = f a₁ a₂ a₃ a₄ a₅ := by
  simp only [five, Option.bind_eq_bind, Option.bind_eq_some_iff, Option.pure_def] at h
  obtain ⟨a₁, h₁, a₂, h₂, a₃, h₃, a₄, h₄, a₅, h₅, h⟩ := h
  exact ⟨a₁, a₂, a₃, a₄, a₅, h₁, h₂, h₃, h₄, h₅, (Option.some.inj h).symm⟩

end

section

variable {torque pos vel kp kd : ExtRat} {profile : MotorProfile}

/-- No setpoint is NaN. -/
def NoNaN (torque pos vel kp kd : ExtRat) : Prop :=
  torque ≠ nan ∧ pos ≠ nan ∧ vel ≠ nan ∧ kp ≠ nan ∧ kd ≠ nan

theorem ProtocolPrivate.scaleMitControl_isSome :
    (ProtocolPrivate.scaleMitControl torque pos vel kp kd profile).isSome ↔
      NoNaN torque pos vel kp kd ∧ Positive profile.torqueLimit ∧
        Positive profile.velocityLimit := by
  refine (five_isSome _ _ _ _ _ _).trans ?_
  rw [rsMathEncodeTorque, rsMathEncodeAngle, rsMathEncodeVelocity, rsMathEncodeKp, rsMathEncodeKd,
    encodeSigned_defined_iff le_rfl, encodeSigned_const_isSome le_rfl fourPi_pos,
    encodeSigned_defined_iff le_rfl, encodeUnsigned_defined_iff le_rfl (by norm_num),
    encodeUnsigned_defined_iff le_rfl (by norm_num)]
  simp only [NoNaN, Positive]
  tauto

theorem ProtocolMIT.scaleMitControl_isSome :
    (ProtocolMIT.scaleMitControl torque pos vel kp kd profile).isSome ↔
      NoNaN torque pos vel kp kd ∧ Positive profile.torqueLimit := by
  refine (five_isSome _ _ _ _ _ _).trans ?_
  rw [rsMitMathEncodeAngle, rsMitMathEncodeVelocity, rsMitMathEncodeKp, rsMitMathEncodeKd,
    rsMitMathEncodeTorque, encodeSigned_const_isSome le_rfl fourPi_pos, twice_thirtyThree,
    encodeSigned_const_isSome (by norm_num) (by norm_num),
    encodeUnsigned_defined_iff (by norm_num) (by norm_num),
    encodeUnsigned_defined_iff (by norm_num) (by norm_num),
    encodeSigned_defined_iff (by norm_num)]
  simp only [NoNaN, Positive]
  tauto

/-- Every raw field truncates a number in its range. -/
def ProtocolPrivate.RawControl.Truncates (raw : ProtocolPrivate.RawControl) : Prop :=
  IsTruncation 65535 raw.torque ∧ IsTruncation 65535 raw.position ∧
    IsTruncation 65535 raw.velocity ∧ IsTruncation 65535 raw.kp ∧ IsTruncation 65535 raw.kd

/-- Each raw field is the truncation of a number within its own steps. -/
def ProtocolMIT.RawControl.Truncates (raw : ProtocolMIT.RawControl) : Prop :=
  IsTruncation 65535 raw.position ∧ IsTruncation 4095 raw.velocity ∧ IsTruncation 4095 raw.kp ∧
    IsTruncation 4095 raw.kd ∧ IsTruncation 4095 raw.torque

theorem ProtocolPrivate.scaleMitControl_truncates {raw : ProtocolPrivate.RawControl}
    (h : ProtocolPrivate.scaleMitControl torque pos vel kp kd profile = some raw) :
    raw.Truncates := by
  obtain ⟨t, p, v, kp', kd', ht, hp, hv, hkp, hkd, rfl⟩ := five_eq_some _ _ _ _ _ _ h
  exact ⟨encodeSigned_truncates le_rfl ht, encodeSigned_const_truncates le_rfl hp,
    encodeSigned_truncates le_rfl hv, encodeUnsigned_truncates le_rfl (by norm_num) hkp,
    encodeUnsigned_truncates le_rfl (by norm_num) hkd⟩

theorem ProtocolMIT.scaleMitControl_truncates {raw : ProtocolMIT.RawControl}
    (h : ProtocolMIT.scaleMitControl torque pos vel kp kd profile = some raw) :
    raw.Truncates := by
  obtain ⟨p, v, kp', kd', t, hp, hv, hkp, hkd, ht, rfl⟩ := five_eq_some _ _ _ _ _ _ h
  rw [rsMitMathEncodeVelocity, twice_thirtyThree] at hv
  exact ⟨encodeSigned_const_truncates le_rfl hp, encodeSigned_const_truncates (by norm_num) hv,
    encodeUnsigned_truncates (by norm_num) (by norm_num) hkp,
    encodeUnsigned_truncates (by norm_num) (by norm_num) hkd,
    encodeSigned_truncates (by norm_num) ht⟩

end

end Robstride
