import Robstride.Sdk.Types

/-!
# Sdk — Scaling

The scaling functions of `protocol_private.h` and `protocol_mit.h`, over exact rationals with
the constants as written.

The encoders are of two shapes.  A signed setpoint is clamped to `[-limit, limit]`, moved up by
`limit`, multiplied by the number of steps and divided by the span (`encodeSigned`).  A gain is
clamped to `[0, max]`, multiplied by the number of steps and divided by `max`
(`encodeUnsigned`).  Each ends in a cast to `uint16_t`.  `none` stands for an evaluation the
language gives no result: `std::clamp` with its bounds out of order, a zero divisor, or a cast
of a number whose truncation is no `uint16_t`.

`encodeSigned_defined_iff`: a signed setpoint has a result exactly when it is not NaN and its
limit is a positive rational, and then the result truncates a number in `[0, steps]`.
-/

namespace Robstride

open Support Support.ExtRat

/-- `RS_PI` as written. -/
def rsPi : ℚ := 3.14159265358979323846

/-! ### The shapes -/

/-- `(uint16_t)((std::clamp(x, -limit, limit) + limit) * steps / span)`. -/
def encodeSigned (steps : ℕ) (span x limit : ExtRat) : Option (BitVec 16) := do
  let c ← x.clamp? (-limit) limit
  let y ← ((c + limit) * .fin steps).div? span
  y.toUInt? 16

/-- `(uint16_t)(std::clamp(x, 0.0f, max) * steps / max)`. -/
def encodeUnsigned (steps : ℕ) (max x : ExtRat) : Option (BitVec 16) := do
  let c ← x.clamp? (.fin 0) max
  let y ← (c * .fin steps).div? max
  y.toUInt? 16

/-- `raw * scale - offset`. -/
def decodeAffine (raw : BitVec 16) (scale offset : ExtRat) : ExtRat :=
  .fin raw.toNat * scale - offset

/-! ### `protocol_private.h` -/

/-- `[-4π, 4π]` over 16 bits. -/
def rsMathDecodeAngle (raw : BitVec 16) : ExtRat :=
  decodeAffine raw (.fin (8 * rsPi / 65535)) (.fin (4 * rsPi))

/-- `[-limit, limit]` over 16 bits. -/
def rsMathDecodeVelocity (raw : BitVec 16) (limit : ExtRat) : ExtRat :=
  decodeAffine raw (.fin 2 * limit / (65535 : ℚ)) limit

/-- `[-limit, limit]` over 16 bits. -/
def rsMathDecodeTorque (raw : BitVec 16) (limit : ExtRat) : ExtRat :=
  decodeAffine raw (.fin 2 * limit / (65535 : ℚ)) limit

/-- Tenths of a degree. -/
def rsMathDecodeTemp (raw : BitVec 16) : ExtRat :=
  .fin raw.toNat * .fin 0.1

/-- A torque within the profile's limit, to 16 bits. -/
def rsMathEncodeTorque (torque limit : ExtRat) : Option (BitVec 16) :=
  encodeSigned 65535 (.fin 2 * limit) torque limit

/-- A position within `4π`, to 16 bits. -/
def rsMathEncodeAngle (pos : ExtRat) : Option (BitVec 16) :=
  encodeSigned 65535 (.fin (2 * (4 * rsPi))) pos (.fin (4 * rsPi))

/-- A velocity within the profile's limit, to 16 bits. -/
def rsMathEncodeVelocity (vel limit : ExtRat) : Option (BitVec 16) :=
  encodeSigned 65535 (.fin 2 * limit) vel limit

/-- A stiffness within 500, to 16 bits. -/
def rsMathEncodeKp (kp : ExtRat) : Option (BitVec 16) :=
  encodeUnsigned 65535 (.fin 500) kp

/-- A damping within 5, to 16 bits. -/
def rsMathEncodeKd (kd : ExtRat) : Option (BitVec 16) :=
  encodeUnsigned 65535 (.fin 5) kd

/-! ### `protocol_mit.h` -/

/-- `[-12.57, 12.57]` over 16 bits; the encoder's range is `4π`. -/
def rsMitMathDecodeAngle (raw : BitVec 16) : ExtRat :=
  decodeAffine raw (.fin (25.14 / 65535)) (.fin 12.57)

/-- `[-33, 33]` over 12 bits, whatever the profile's limit. -/
def rsMitMathDecodeVelocity (raw : BitVec 16) : ExtRat :=
  decodeAffine raw (.fin (66 / 4095)) (.fin 33)

/-- `[-limit, limit]` over 12 bits. -/
def rsMitMathDecodeTorque (raw : BitVec 16) (limit : ExtRat) : ExtRat :=
  decodeAffine raw (.fin 2 * limit / (4095 : ℚ)) limit

/-- A position within `4π`, to 16 bits. -/
def rsMitMathEncodeAngle (pos : ExtRat) : Option (BitVec 16) :=
  encodeSigned 65535 (.fin (2 * (4 * rsPi))) pos (.fin (4 * rsPi))

/-- A velocity within 33, to 12 bits. -/
def rsMitMathEncodeVelocity (vel : ExtRat) : Option (BitVec 16) :=
  encodeSigned 4095 (.fin 66) vel (.fin 33)

/-- A torque within the profile's limit, to 12 bits. -/
def rsMitMathEncodeTorque (torque limit : ExtRat) : Option (BitVec 16) :=
  encodeSigned 4095 (.fin 2 * limit) torque limit

/-- A stiffness within 500, to 12 bits. -/
def rsMitMathEncodeKp (kp : ExtRat) : Option (BitVec 16) :=
  encodeUnsigned 4095 (.fin 500) kp

/-- A damping within 5, to 12 bits. -/
def rsMitMathEncodeKd (kd : ExtRat) : Option (BitVec 16) :=
  encodeUnsigned 4095 (.fin 5) kd

/-! ### The signed shape -/

/-- A clamped setpoint, scaled, is in `[0, steps]`. -/
theorem scaled_mem {c L steps : ℚ} (hL : 0 < L) (hs : 0 ≤ steps) (h₁ : -L ≤ c) (h₂ : c ≤ L) :
    0 ≤ (c + L) * steps / (2 * L) ∧ (c + L) * steps / (2 * L) ≤ steps := by
  have hc : 0 ≤ c + L := by linarith
  refine ⟨by positivity, ?_⟩
  rw [div_le_iff₀ (by linarith)]
  nlinarith

/-- What the clamp leaves is scaled and truncated. -/
theorem encodeSigned_of_clamp {steps : ℕ} {x : ExtRat} {c L : ℚ} (hsteps : steps ≤ 65535)
    (hL : 0 < L) (hc : x.clamp? (fin (-L)) (fin L) = some (fin c)) (h₁ : -L ≤ c) (h₂ : c ≤ L) :
    ∃ raw, encodeSigned steps (fin (2 * L)) x (fin L) = some raw ∧
      raw.toNat = ⌊(c + L) * steps / (2 * L)⌋₊ := by
  obtain ⟨h₀, hle⟩ := scaled_mem hL (Nat.cast_nonneg steps) h₁ h₂
  have hlt : (c + L) * steps / (2 * L) < 2 ^ 16 := by
    have : (steps : ℚ) ≤ 65535 := by exact_mod_cast hsteps
    linarith
  have hne : 2 * L ≠ 0 := by linarith
  refine ⟨_, ?_, toNat_floor h₀ hlt⟩
  simp [encodeSigned, hc, div?_fin hne, toUInt?_fin h₀ hlt]

/-- A setpoint other than NaN at a positive limit encodes to the truncation of a number in
`[0, steps]`. -/
theorem encodeSigned_spec {steps : ℕ} {x : ExtRat} {L : ℚ} (hsteps : steps ≤ 65535)
    (hx : x ≠ nan) (hL : 0 < L) :
    ∃ raw, encodeSigned steps (fin (2 * L)) x (fin L) = some raw ∧ IsTruncation steps raw := by
  obtain ⟨c, hc, h₁, h₂⟩ := clamp?_fin (-L) L hx (by linarith)
  obtain ⟨h₀, hle⟩ := scaled_mem hL (Nat.cast_nonneg steps) h₁ h₂
  obtain ⟨raw, hraw, hfloor⟩ := encodeSigned_of_clamp hsteps hL hc h₁ h₂
  exact ⟨raw, hraw, _, h₀, hle, hfloor⟩

/-- A rational setpoint encodes to the floor of its clamped and scaled value. -/
theorem encodeSigned_rat {steps : ℕ} {L : ℚ} (x : ℚ) (hsteps : steps ≤ 65535) (hL : 0 < L) :
    ∃ raw, encodeSigned steps (fin (2 * L)) (fin x) (fin L) = some raw ∧
      raw.toNat = ⌊(max (-L) (min x L) + L) * steps / (2 * L)⌋₊ := by
  have hle : -L ≤ L := by linarith
  exact encodeSigned_of_clamp hsteps hL (clamp?_rat x hle) (le_max_left _ _)
    (max_le hle (min_le_right _ _))

/-- The top raw value is the one of the setpoints at or above the limit. -/
theorem floor_scaled_eq_top {steps : ℕ} {x L : ℚ} (hs : 0 < steps) (hL : 0 < L) :
    ⌊(max (-L) (min x L) + L) * steps / (2 * L)⌋₊ = steps ↔ L ≤ x := by
  have hle : -L ≤ L := by linarith
  have hs' : (0 : ℚ) < steps := by exact_mod_cast hs
  obtain ⟨-, h₁⟩ := scaled_mem (c := max (-L) (min x L)) hL hs'.le
    (le_max_left _ _) (max_le hle (min_le_right _ _))
  have hfloor := Nat.floor_le_of_le h₁
  constructor
  · intro h
    by_contra hx
    have hmin : max (-L) (min x L) < L := max_lt (by linarith) (min_lt_of_left_lt (not_le.mp hx))
    have hlt : (max (-L) (min x L) + L) * steps / (2 * L) < steps := by
      rw [div_lt_iff₀ (by linarith)]
      nlinarith
    exact absurd h (ne_of_lt ((Nat.floor_lt' hs.ne').mpr hlt))
  · intro h
    have hne : 2 * L ≠ 0 := by linarith
    rw [min_eq_right h, max_eq_right hle, show (L + L) * steps / (2 * L) = steps by
      field_simp; ring, Nat.floor_natCast]

/-- A raw value strictly inside the range is the one of a half-open interval of setpoints. -/
theorem floor_scaled_eq_iff {steps k : ℕ} {x L : ℚ} (hk : 0 < k) (hks : k < steps) (hL : 0 < L) :
    ⌊(max (-L) (min x L) + L) * steps / (2 * L)⌋₊ = k ↔
      k ≤ (x + L) * steps / (2 * L) ∧ (x + L) * steps / (2 * L) < k + 1 := by
  have hle : -L ≤ L := by linarith
  have hs : (0 : ℚ) < steps := by exact_mod_cast lt_trans hk hks
  have hk' : (0 : ℚ) < k := by exact_mod_cast hk
  have hks' : (k : ℚ) + 1 ≤ steps := by exact_mod_cast hks
  rcases lt_or_ge x (-L) with hlo | hlo
  · -- below the low bound the raw value is `0`
    rw [min_eq_left (by linarith), max_eq_left hlo.le]
    have hneg : (x + L) * steps / (2 * L) < 0 :=
      div_neg_of_neg_of_pos (mul_neg_of_neg_of_pos (by linarith) hs) (by linarith)
    constructor
    · intro h
      simp at h
      omega
    · rintro ⟨h, -⟩
      linarith
  · rcases lt_or_ge L x with hhi | hhi
    · -- above the high bound it is `steps`
      have htop : steps ≤ (x + L) * steps / (2 * L) := by
        rw [le_div_iff₀ (by linarith)]
        nlinarith
      rw [(floor_scaled_eq_top (lt_trans hk hks) hL).mpr hhi.le]
      constructor
      · intro h
        omega
      · rintro ⟨-, h⟩
        linarith
    · obtain ⟨h₀, -⟩ := scaled_mem hL hs.le hlo hhi
      rw [min_eq_left hhi, max_eq_right hlo]
      exact Nat.floor_eq_iff h₀

/-- **The levels of a signed setpoint**: the top raw value is reached at the limit, every other
but `0` on its own half-open interval. -/
theorem encodeSigned_levels (steps : ℕ) {L : ℚ} (x : ℚ) (hs : 0 < steps) (hsteps : steps ≤ 65535)
    (hL : 0 < L) :
    ∃ raw, encodeSigned steps (fin (2 * L)) (fin x) (fin L) = some raw ∧ raw.toNat ≤ steps ∧
      (raw.toNat = steps ↔ L ≤ x) ∧
      ∀ k : ℕ, 0 < k → k < steps → (raw.toNat = k ↔
        k ≤ (x + L) * steps / (2 * L) ∧ (x + L) * steps / (2 * L) < k + 1) := by
  obtain ⟨raw, hraw, hfloor⟩ := encodeSigned_rat x hsteps hL
  obtain ⟨-, hle⟩ := scaled_mem (c := max (-L) (min x L)) hL (Nat.cast_nonneg steps)
    (le_max_left _ _) (max_le (by linarith) (min_le_right _ _))
  refine ⟨raw, hraw, ?_, ?_, fun k hk hks => ?_⟩
  · rw [hfloor]
    exact Nat.floor_le_of_le hle
  · rw [hfloor]
    exact floor_scaled_eq_top hs hL
  · rw [hfloor]
    exact floor_scaled_eq_iff hk hks hL

/-- NaN encodes to nothing: it passes `std::clamp`, the sum, the product and the quotient, and
has no integer to be cast to. -/
theorem encodeSigned_nan (steps : ℕ) (span limit : ExtRat) :
    encodeSigned steps span nan limit = none := by
  unfold encodeSigned
  cases h : limit.lt (-limit) with
  | true => simp [clamp?, h]
  | false =>
      rw [clamp?_nan h]
      simp only [Option.bind_eq_bind, Option.bind_some, nan_add, nan_mul]
      cases hd : nan.div? span with
      | none => rfl
      | some z => rw [nan_div? span hd, Option.bind_some, toUInt?_nan]

/-- At a span of twice the limit, a limit that is no positive rational encodes nothing: the
bounds of the clamp are out of order, the divisor is zero, or the quotient is NaN. -/
theorem encodeSigned_bad_limit (steps : ℕ) (x : ExtRat) {limit : ExtRat}
    (h : ∀ L : ℚ, 0 < L → limit ≠ fin L) :
    encodeSigned steps (fin 2 * limit) x limit = none := by
  cases hfin : limit.isFinite with
  | false =>
      have hspan : (fin 2 * limit).isFinite = false := mul_not_finite (.inr hfin)
      unfold encodeSigned
      cases hc : x.clamp? (-limit) limit with
      | none => rfl
      | some c =>
          have hprod : ((c + limit) * fin steps).isFinite = false :=
            mul_not_finite (.inl (add_not_finite c hfin))
          simp [div?_not_finite hprod hspan]
  | true =>
      cases limit with
      | posInf | negInf | nan => cases hfin
      | fin L =>
          have hL : L ≤ 0 := not_lt.mp fun hpos => h L hpos rfl
          rcases lt_or_eq_of_le hL with hneg | rfl
          · have hlt : L < -L := by linarith
            simp [encodeSigned, clamp?, hlt]
          · simp [encodeSigned]

/-- **Definedness of a signed setpoint**: it has a result exactly when it is not NaN and its
limit is a positive rational. -/
theorem encodeSigned_defined_iff {steps : ℕ} (hsteps : steps ≤ 65535) (x limit : ExtRat) :
    (encodeSigned steps (fin 2 * limit) x limit).isSome ↔
      x ≠ nan ∧ ∃ L : ℚ, 0 < L ∧ limit = fin L := by
  constructor
  · intro h
    refine ⟨fun hx => ?_, ?_⟩
    · rw [hx, encodeSigned_nan] at h
      cases h
    · by_contra hno
      push Not at hno
      rw [encodeSigned_bad_limit _ _ hno] at h
      cases h
  · rintro ⟨hx, L, hL, rfl⟩
    obtain ⟨raw, hraw, -⟩ := encodeSigned_spec hsteps hx hL
    rw [mul_fin, hraw]
    rfl

/-! ### The unsigned shape -/

/-- A clamped gain, scaled, is in `[0, steps]`. -/
theorem gain_mem {c max steps : ℚ} (hmax : 0 < max) (hs : 0 ≤ steps) (h₁ : 0 ≤ c)
    (h₂ : c ≤ max) : 0 ≤ c * steps / max ∧ c * steps / max ≤ steps := by
  refine ⟨by positivity, ?_⟩
  rw [div_le_iff₀ hmax]
  nlinarith

/-- What the clamp leaves is scaled and truncated. -/
theorem encodeUnsigned_of_clamp {steps : ℕ} {x : ExtRat} {c top : ℚ} (hsteps : steps ≤ 65535)
    (htop : 0 < top) (hc : x.clamp? (fin 0) (fin top) = some (fin c)) (h₁ : 0 ≤ c) (h₂ : c ≤ top) :
    ∃ raw, encodeUnsigned steps (fin top) x = some raw ∧ raw.toNat = ⌊c * steps / top⌋₊ := by
  obtain ⟨h₀, hle⟩ := gain_mem htop (Nat.cast_nonneg steps) h₁ h₂
  have hlt : c * steps / top < 2 ^ 16 := by
    have : (steps : ℚ) ≤ 65535 := by exact_mod_cast hsteps
    linarith
  refine ⟨_, ?_, toNat_floor h₀ hlt⟩
  simp [encodeUnsigned, hc, div?_fin htop.ne', toUInt?_fin h₀ hlt]

/-- A gain other than NaN encodes to the truncation of a number in `[0, steps]`. -/
theorem encodeUnsigned_spec {steps : ℕ} {x : ExtRat} {max : ℚ} (hsteps : steps ≤ 65535)
    (hx : x ≠ nan) (hmax : 0 < max) :
    ∃ raw, encodeUnsigned steps (fin max) x = some raw ∧ IsTruncation steps raw := by
  obtain ⟨c, hc, h₁, h₂⟩ := clamp?_fin 0 max hx hmax.le
  obtain ⟨h₀, hle⟩ := gain_mem hmax (Nat.cast_nonneg steps) h₁ h₂
  obtain ⟨raw, hraw, hfloor⟩ := encodeUnsigned_of_clamp hsteps hmax hc h₁ h₂
  exact ⟨raw, hraw, _, h₀, hle, hfloor⟩

/-- A rational gain encodes to the floor of its clamped and scaled value. -/
theorem encodeUnsigned_rat {steps : ℕ} (top x : ℚ) (hsteps : steps ≤ 65535)
    (hmax : 0 < top) :
    ∃ raw, encodeUnsigned steps (fin top) (fin x) = some raw ∧
      raw.toNat = ⌊max 0 (min x top) * steps / top⌋₊ :=
  encodeUnsigned_of_clamp hsteps hmax (clamp?_rat x hmax.le) (le_max_left _ _)
    (max_le hmax.le (min_le_right _ _))

/-- The top raw value is the one of the gains at or above the maximum. -/
theorem floor_gain_eq_top {steps : ℕ} {x top : ℚ} (hs : 0 < steps) (hmax : 0 < top) :
    ⌊max 0 (min x top) * steps / top⌋₊ = steps ↔ top ≤ x := by
  have hs' : (0 : ℚ) < steps := by exact_mod_cast hs
  constructor
  · intro h
    by_contra hx
    have hmin : max 0 (min x top) < top := max_lt hmax (min_lt_of_left_lt (not_le.mp hx))
    have hlt : max 0 (min x top) * steps / top < steps := by
      rw [div_lt_iff₀ hmax]
      nlinarith
    exact absurd h (ne_of_lt ((Nat.floor_lt' hs.ne').mpr hlt))
  · intro h
    rw [min_eq_right h, max_eq_right hmax.le, mul_div_cancel_left₀ _ hmax.ne', Nat.floor_natCast]

/-- **The top level of a gain** is reached at the maximum. -/
theorem encodeUnsigned_levels (steps : ℕ) (top x : ℚ) (hs : 0 < steps)
    (hsteps : steps ≤ 65535) (htop : 0 < top) :
    ∃ raw, encodeUnsigned steps (fin top) (fin x) = some raw ∧ raw.toNat ≤ steps ∧
      (raw.toNat = steps ↔ top ≤ x) := by
  obtain ⟨raw, hraw, hfloor⟩ := encodeUnsigned_rat top x hsteps htop
  obtain ⟨-, hle⟩ := gain_mem (c := max 0 (min x top)) htop (Nat.cast_nonneg steps)
    (le_max_left _ _) (max_le htop.le (min_le_right _ _))
  refine ⟨raw, hraw, ?_, ?_⟩
  · rw [hfloor]
    exact Nat.floor_le_of_le hle
  · rw [hfloor]
    exact floor_gain_eq_top hs htop

/-- NaN is no gain either. -/
theorem encodeUnsigned_nan (steps : ℕ) (max : ExtRat) : encodeUnsigned steps max nan = none := by
  unfold encodeUnsigned
  cases h : max.lt (fin 0) with
  | true => simp [clamp?, h]
  | false =>
      rw [clamp?_nan h]
      simp only [Option.bind_eq_bind, Option.bind_some, nan_mul]
      cases hd : nan.div? max with
      | none => rfl
      | some z => rw [nan_div? max hd, Option.bind_some, toUInt?_nan]

/-- **Definedness of a gain**: it has a result exactly when it is not NaN. -/
theorem encodeUnsigned_defined_iff {steps : ℕ} (hsteps : steps ≤ 65535) {max : ℚ} (hmax : 0 < max)
    (x : ExtRat) : (encodeUnsigned steps (fin max) x).isSome ↔ x ≠ nan := by
  constructor
  · rintro h rfl
    rw [encodeUnsigned_nan] at h
    cases h
  · intro hx
    obtain ⟨raw, hraw, -⟩ := encodeUnsigned_spec hsteps hx hmax
    rw [hraw]
    rfl

end Robstride
