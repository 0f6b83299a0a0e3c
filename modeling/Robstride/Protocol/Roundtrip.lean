import Robstride.Protocol.Commands
import Robstride.Support.Levels

/-!
# Protocol — Scaling round trips

The encoders against the decoders, over exact rationals with the constants as written.

* Private protocol: every signed channel is the levels of `[-L, L]` in 65535 steps, on both sides
  (`private_scaling`).
* MIT protocol: so are velocity and torque, in 4095 steps.  The angle encoder has the range
  `[-4 RS_PI, 4 RS_PI]`, the decoder `[-12.57, 12.57]`, so the two agree near the middle only:
  `mit_scaling_iff` says where.
-/

namespace Robstride

open Support Support.ExtRat

/-! ### The shapes -/

section

variable {steps : ℕ} {L top : ℚ}

/-- The raw value of a number: its level in `[lo, hi]`. -/
def levelBits (lo hi : ℚ) (steps : ℕ) (x : ℚ) : BitVec 16 := BitVec.ofNat 16 (level lo hi steps x)

theorem levelBits_toNat {lo hi : ℚ} (h : lo < hi) (hsteps : steps ≤ 65535) (x : ℚ) :
    (levelBits lo hi steps x).toNat = level lo hi steps x := by
  have hle : level lo hi steps x ≤ 65535 := (level_le h x).trans hsteps
  rw [levelBits, BitVec.toNat_ofNat]
  exact Nat.mod_eq_of_lt (by omega)

/-- A signed setpoint encodes to its level. -/
theorem encodeSigned_level (hsteps : steps ≤ 65535) (hL : 0 < L) (x : ℚ) :
    encodeSigned steps (fin (2 * L)) (fin x) (fin L) = some (levelBits (-L) L steps x) := by
  obtain ⟨raw, hraw, hfloor⟩ := encodeSigned_rat x hsteps hL
  have hplace : level (-L) L steps x = raw.toNat := by
    rw [hfloor, level, place, clampTo, sub_neg_eq_add, sub_neg_eq_add, two_mul]
  rw [hraw, levelBits, hplace, BitVec.ofNat_toNat, BitVec.setWidth_eq]

/-- A gain encodes to its level. -/
theorem encodeUnsigned_level (hsteps : steps ≤ 65535) (htop : 0 < top) (x : ℚ) :
    encodeUnsigned steps (fin top) (fin x) = some (levelBits 0 top steps x) := by
  obtain ⟨raw, hraw, hfloor⟩ := encodeUnsigned_rat top x hsteps htop
  have hplace : level 0 top steps x = raw.toNat := by
    rw [hfloor, level, place, clampTo, sub_zero, sub_zero]
  rw [hraw, levelBits, hplace, BitVec.ofNat_toNat, BitVec.setWidth_eq]

/-- A raw value decodes to the value of its level. -/
theorem decodeAffine_value (raw : BitVec 16) :
    decodeAffine raw (fin (2 * L / steps)) (fin L) = fin (value (-L) L steps raw.toNat) := by
  rw [decodeAffine, mul_fin, sub_fin, value, sub_neg_eq_add, ← two_mul, sub_eq_add_neg]

theorem decodeAffine_value_limit (raw : BitVec 16) (hsteps : (steps : ℚ) ≠ 0) :
    decodeAffine raw (fin 2 * fin L / (steps : ℚ)) (fin L) =
      fin (value (-L) L steps raw.toNat) := by
  have hscale : fin 2 * fin L / (steps : ℚ) = fin (2 * L / steps) := by
    show ((fin (2 * L)).div? (fin steps)).getD nan = _
    rw [div?_fin hsteps, Option.getD_some]
  rw [hscale, decodeAffine_value]

end

/-! ### Channels -/

/-- The quantities that commands carry to the motor and feedback carries back. -/
inductive Channel where
  | angle
  | velocity
  | torque
  deriving DecidableEq

/-- The gains of a control command. -/
inductive Gain where
  | kp
  | kd
  deriving DecidableEq

/-- The encoder keeps the order of what it encodes. -/
def MonotoneEncoder (encode : ℚ → Option (BitVec 16)) : Prop :=
  ∀ x y, x ≤ y → ∃ r r', encode x = some r ∧ encode y = some r' ∧ r.toNat ≤ r'.toNat

/-- Decoding a raw value and encoding the result gives the raw value back. -/
def RoundTrips (encode : ℚ → Option (BitVec 16)) (decode : BitVec 16 → ExtRat)
    (raw : BitVec 16) : Prop :=
  ∃ y, decode raw = fin y ∧ encode y = some raw

theorem monotoneEncoder_level {lo hi : ℚ} {steps : ℕ} (h : lo < hi) (hsteps : steps ≤ 65535) :
    MonotoneEncoder fun x => some (levelBits lo hi steps x) := by
  intro x y hxy
  refine ⟨_, _, rfl, rfl, ?_⟩
  rw [levelBits_toNat h hsteps, levelBits_toNat h hsteps]
  exact level_mono h hxy

/-- An encoder and a decoder of one range in the same steps are inverse to each other on raw
values. -/
theorem roundTrips_level {lo hi : ℚ} {steps : ℕ} (h : lo < hi) (hsteps : 0 < steps)
    {raw : BitVec 16} (hraw : raw.toNat ≤ steps) :
    RoundTrips (fun x => some (levelBits lo hi steps x))
      (fun r => fin (value lo hi steps r.toNat)) raw := by
  refine ⟨_, rfl, ?_⟩
  show some (levelBits lo hi steps (value lo hi steps raw.toNat)) = some raw
  rw [levelBits, level_value h hsteps hraw, BitVec.ofNat_toNat, BitVec.setWidth_eq]

/-! ### Private protocol -/

namespace ProtocolPrivate

/-- The range of a quantity, for the encoder and the decoder. -/
def channelLimit (l : Limits) : Channel → ℚ
  | .angle => 4 * rsPi
  | .velocity => l.velocity
  | .torque => l.torque

/-- The encoder of a quantity. -/
def encodeChannel (l : Limits) : Channel → ℚ → Option (BitVec 16)
  | .angle, x => rsMathEncodeAngle (.fin x)
  | .velocity, x => rsMathEncodeVelocity (.fin x) (.fin l.velocity)
  | .torque, x => rsMathEncodeTorque (.fin x) (.fin l.torque)

/-- The decoder of a quantity. -/
def decodeChannel (l : Limits) : Channel → BitVec 16 → ExtRat
  | .angle, raw => rsMathDecodeAngle raw
  | .velocity, raw => rsMathDecodeVelocity raw (.fin l.velocity)
  | .torque, raw => rsMathDecodeTorque raw (.fin l.torque)

/-- The largest gain. -/
def gainTop : Gain → ℚ
  | .kp => 500
  | .kd => 5

/-- The encoder of a gain. -/
def encodeGain : Gain → ℚ → Option (BitVec 16)
  | .kp, x => rsMathEncodeKp (.fin x)
  | .kd, x => rsMathEncodeKd (.fin x)

theorem channelLimit_pos (l : Limits) (c : Channel) : 0 < channelLimit l c := by
  cases c with
  | angle => exact fourPi_pos
  | velocity => exact l.velocity_pos
  | torque => exact l.torque_pos

theorem encodeChannel_eq (l : Limits) (c : Channel) :
    encodeChannel l c =
      fun x => some (levelBits (-channelLimit l c) (channelLimit l c) 65535 x) := by
  funext x
  have h := encodeSigned_level (le_refl 65535) (channelLimit_pos l c) x
  cases c with
  | angle | velocity | torque => exact h

theorem decodeChannel_eq (l : Limits) (c : Channel) :
    decodeChannel l c =
      fun raw => fin (value (-channelLimit l c) (channelLimit l c) 65535 raw.toNat) := by
  funext raw
  have h65535 : ((65535 : ℕ) : ℚ) = 65535 := Nat.cast_ofNat
  have hlimit : ∀ L : ℚ, decodeAffine raw (fin 2 * fin L / (65535 : ℚ)) (fin L) =
      fin (value (-L) L 65535 raw.toNat) := by
    intro L
    rw [← h65535]
    exact decodeAffine_value_limit raw (by norm_num)
  cases c with
  | angle =>
      have hspan : (8 * rsPi / 65535 : ℚ) = 2 * (4 * rsPi) / (65535 : ℕ) := by
        rw [h65535]
        ring
      show decodeAffine raw (fin (8 * rsPi / 65535)) (fin (4 * rsPi)) = _
      rw [hspan]
      exact decodeAffine_value raw
  | velocity | torque => exact hlimit _

theorem gainTop_pos (g : Gain) : 0 < gainTop g := by
  cases g <;> norm_num [gainTop]

theorem encodeGain_eq (g : Gain) :
    encodeGain g = fun x => some (levelBits 0 (gainTop g) 65535 x) := by
  funext x
  have h := encodeUnsigned_level (le_refl 65535) (gainTop_pos g) x
  cases g with
  | kp | kd => exact h

/-- **Scaling of the private protocol**, for all positive limits: each signed channel's encoder is
monotone, gives every raw value back, and loses less than one step downwards; each gain's encoder
is monotone and reaches `0` and `65535` at the ends of its range. -/
theorem private_scaling (l : Limits) :
    (∀ c : Channel, MonotoneEncoder (encodeChannel l c) ∧
      (∀ raw, RoundTrips (encodeChannel l c) (decodeChannel l c) raw) ∧
      ∀ x, ∃ raw y, encodeChannel l c x = some raw ∧ decodeChannel l c raw = fin y ∧
        0 ≤ clampTo (-channelLimit l c) (channelLimit l c) x - y ∧
        clampTo (-channelLimit l c) (channelLimit l c) x - y < 2 * channelLimit l c / 65535) ∧
    ∀ g : Gain, MonotoneEncoder (encodeGain g) ∧ encodeGain g 0 = some 0 ∧
      encodeGain g (gainTop g) = some 65535 := by
  refine ⟨fun c => ?_, fun g => ?_⟩
  · have hL := channelLimit_pos l c
    have hlt : -channelLimit l c < channelLimit l c := by linarith
    rw [encodeChannel_eq, decodeChannel_eq]
    refine ⟨monotoneEncoder_level hlt le_rfl, fun raw => ?_, fun x => ?_⟩
    · exact roundTrips_level hlt (by norm_num) (Nat.le_of_lt_succ raw.isLt)
    · refine ⟨_, _, rfl, rfl, ?_, ?_⟩
      · rw [levelBits_toNat hlt le_rfl, sub_nonneg]
        exact value_level_le hlt (by norm_num) x
      · rw [levelBits_toNat hlt le_rfl, sub_lt_iff_lt_add']
        have h := lt_value_level_add hlt (show 0 < 65535 by norm_num) x
        rw [sub_neg_eq_add, ← two_mul] at h
        exact_mod_cast h
  · have hlt := gainTop_pos g
    rw [encodeGain_eq]
    refine ⟨monotoneEncoder_level hlt le_rfl, ?_, ?_⟩
    · show some (levelBits 0 (gainTop g) 65535 0) = some 0
      rw [levelBits, level_low hlt le_rfl]
      rfl
    · show some (levelBits 0 (gainTop g) 65535 (gainTop g)) = some 65535
      rw [levelBits, level_high hlt le_rfl]
      rfl

end ProtocolPrivate

/-! ### MIT protocol -/

namespace ProtocolMIT

/-- The steps of a quantity: 16 bits or 12. -/
def channelSteps : Channel → ℕ
  | .angle => 65535
  | .velocity | .torque => 4095

/-- The range of the encoder. -/
def channelLimit (l : Limits) : Channel → ℚ
  | .angle => 4 * rsPi
  | .velocity => 33
  | .torque => l.torque

/-- The range of the decoder. -/
def feedbackLimit (l : Limits) : Channel → ℚ
  | .angle => 12.57
  | .velocity => 33
  | .torque => l.torque

/-- One quantisation step of the decoder. -/
def feedbackStep (l : Limits) (c : Channel) : ℚ := 2 * feedbackLimit l c / channelSteps c

/-- The encoder of a quantity. -/
def encodeChannel (l : Limits) : Channel → ℚ → Option (BitVec 16)
  | .angle, x => rsMitMathEncodeAngle (.fin x)
  | .velocity, x => rsMitMathEncodeVelocity (.fin x)
  | .torque, x => rsMitMathEncodeTorque (.fin x) (.fin l.torque)

/-- The decoder of a quantity. -/
def decodeChannel (l : Limits) : Channel → BitVec 16 → ExtRat
  | .angle, raw => rsMitMathDecodeAngle raw
  | .velocity, raw => rsMitMathDecodeVelocity raw
  | .torque, raw => rsMitMathDecodeTorque raw (.fin l.torque)

/-- What a setpoint is decoded to is at most one step away from it. -/
def WithinStep (l : Limits) (c : Channel) (x : ℚ) : Prop :=
  ∃ raw y, encodeChannel l c x = some raw ∧ decodeChannel l c raw = fin y ∧
    |y - x| ≤ feedbackStep l c

theorem channelSteps_le (c : Channel) : channelSteps c ≤ 65535 := by
  cases c <;> norm_num [channelSteps]

theorem channelSteps_pos (c : Channel) : 0 < channelSteps c := by
  cases c <;> norm_num [channelSteps]

theorem channelLimit_pos (l : Limits) (c : Channel) : 0 < channelLimit l c := by
  cases c with
  | angle => exact fourPi_pos
  | velocity => norm_num [channelLimit]
  | torque => exact l.torque_pos

theorem encodeChannel_eq (l : Limits) (c : Channel) :
    encodeChannel l c =
      fun x => some (levelBits (-channelLimit l c) (channelLimit l c) (channelSteps c) x) := by
  funext x
  have h := encodeSigned_level (channelSteps_le c) (channelLimit_pos l c) x
  cases c with
  | angle | torque => exact h
  | velocity =>
      show encodeSigned 4095 (fin 66) (fin x) (fin 33) = _
      rw [twice_thirtyThree]
      exact h

theorem decodeChannel_eq (l : Limits) (c : Channel) :
    decodeChannel l c =
      fun raw => fin (value (-feedbackLimit l c) (feedbackLimit l c) (channelSteps c)
        raw.toNat) := by
  funext raw
  have h4095 : ((4095 : ℕ) : ℚ) = 4095 := Nat.cast_ofNat
  have h : ∀ (steps : ℕ) (L : ℚ), decodeAffine raw (fin (2 * L / steps)) (fin L) =
      fin (value (-L) L steps raw.toNat) := fun _ _ => decodeAffine_value raw
  cases c with
  | angle =>
      have hscale : (25.14 / 65535 : ℚ) = 2 * 12.57 / (65535 : ℕ) := by norm_num
      show decodeAffine raw (fin (25.14 / 65535)) (fin 12.57) = _
      rw [hscale]
      exact h 65535 12.57
  | velocity =>
      have hscale : (66 / 4095 : ℚ) = 2 * 33 / (4095 : ℕ) := by norm_num
      show decodeAffine raw (fin (66 / 4095)) (fin 33) = _
      rw [hscale]
      exact h 4095 33
  | torque =>
      show decodeAffine raw (fin 2 * fin l.torque / (4095 : ℚ)) (fin l.torque) = _
      rw [← h4095]
      exact decodeAffine_value_limit raw (by norm_num)

theorem roundTrips_iff (l : Limits) (c : Channel) (raw : BitVec 16) :
    RoundTrips (encodeChannel l c) (decodeChannel l c) raw ↔
      level (-channelLimit l c) (channelLimit l c) (channelSteps c)
        (value (-feedbackLimit l c) (feedbackLimit l c) (channelSteps c) raw.toNat) =
          raw.toNat := by
  have hL := channelLimit_pos l c
  have hlt : -channelLimit l c < channelLimit l c := by linarith
  rw [encodeChannel_eq, decodeChannel_eq]
  constructor
  · rintro ⟨y, hy, henc⟩
    obtain rfl := ExtRat.fin.inj hy
    rw [← levelBits_toNat hlt (channelSteps_le c), Option.some.inj henc]
  · intro h
    refine ⟨_, rfl, ?_⟩
    show some (levelBits _ _ _ _) = some raw
    rw [levelBits, h, BitVec.ofNat_toNat, BitVec.setWidth_eq]

theorem withinStep_iff (l : Limits) (c : Channel) (x : ℚ) :
    WithinStep l c x ↔
      |value (-feedbackLimit l c) (feedbackLimit l c) (channelSteps c)
        (level (-channelLimit l c) (channelLimit l c) (channelSteps c) x) - x| ≤
          feedbackStep l c := by
  have hL := channelLimit_pos l c
  have hlt : -channelLimit l c < channelLimit l c := by linarith
  rw [WithinStep, encodeChannel_eq, decodeChannel_eq]
  constructor
  · rintro ⟨raw, y, hraw, hy, hstep⟩
    obtain rfl := Option.some.inj hraw
    obtain rfl := ExtRat.fin.inj hy
    rwa [levelBits_toNat hlt (channelSteps_le c)] at hstep
  · intro h
    refine ⟨_, _, rfl, rfl, ?_⟩
    rwa [levelBits_toNat hlt (channelSteps_le c)]

/-! #### Velocity and torque -/

section

variable {l : Limits} {c : Channel}

/-- Where encoder and decoder have one range, every raw value comes back. -/
theorem roundTrips_of_range (h : feedbackLimit l c = channelLimit l c) {raw : BitVec 16}
    (hraw : raw.toNat ≤ channelSteps c) :
    RoundTrips (encodeChannel l c) (decodeChannel l c) raw := by
  have hL := channelLimit_pos l c
  rw [roundTrips_iff, h]
  exact level_value (by linarith) (channelSteps_pos c) hraw

theorem withinStep_of_range (h : feedbackLimit l c = channelLimit l c) {x : ℚ}
    (h₁ : -channelLimit l c ≤ x) (h₂ : x ≤ channelLimit l c) : WithinStep l c x := by
  have hL := channelLimit_pos l c
  have hlt : -channelLimit l c < channelLimit l c := by linarith
  have hlow := value_level_le hlt (channelSteps_pos c) x
  have hhigh := lt_value_level_add hlt (channelSteps_pos c) x
  rw [clampTo_of_mem h₁ h₂] at hlow hhigh
  rw [sub_neg_eq_add, ← two_mul] at hhigh
  rw [withinStep_iff, feedbackStep, h, abs_le]
  constructor <;> linarith

theorem feedbackLimit_of_ne (hc : c ≠ .angle) : feedbackLimit l c = channelLimit l c := by
  cases c with
  | angle => exact absurd rfl hc
  | velocity | torque => rfl

end

/-! #### Angle -/

/-- The raw angles that come back: the ends, and those from the middle of the range on until the
decoder's range has moved them one cell. -/
def AngleReturns (raw : BitVec 16) : Prop :=
  raw.toNat = 0 ∨ (32768 ≤ raw.toNat ∧ raw.toNat ≤ 36229) ∨ raw.toNat = 65535

/-- How far the decoder's range moves an angle away from zero. -/
def angleDrift (x : ℚ) : ℚ := x * (12.57 / (4 * rsPi) - 1)

/-- The place of an angle in its cell of the encoder, from `0` to `1`. -/
def angleRest (x : ℚ) : ℚ := Int.fract (place (-(4 * rsPi)) (4 * rsPi) 65535 x)

/-- The drift is within the step, measured from the angle's place in its cell. -/
def AngleDriftsLittle (x : ℚ) : Prop :=
  -(1 - angleRest x) * (25.14 / 65535) ≤ angleDrift x ∧
    angleDrift x ≤ (1 + angleRest x) * (25.14 / 65535)

/-- The decoder's range is wider than the encoder's, by less than one step in 6923 half steps and
by one in 6925. -/
theorem stretch_bounds : 0 < 12.57 / (4 * rsPi) - 1 ∧ 6923 * (12.57 / (4 * rsPi) - 1) < 2 ∧
    2 ≤ 6925 * (12.57 / (4 * rsPi) - 1) := by
  norm_num [rsPi]

/-- The levels that move less than one cell upwards. -/
theorem moved_less_iff (n : ℕ) :
    (0 ≤ ((n : ℚ) - (65535 : ℕ) / 2) * (12.57 / (4 * rsPi) - 1) ∧
      ((n : ℚ) - (65535 : ℕ) / 2) * (12.57 / (4 * rsPi) - 1) < 1) ↔ 32768 ≤ n ∧ n ≤ 36229 := by
  obtain ⟨hpos, hbelow, habove⟩ := stretch_bounds
  generalize (12.57 / (4 * rsPi) - 1 : ℚ) = c at hpos hbelow habove
  have h65535 : ((65535 : ℕ) : ℚ) = 65535 := Nat.cast_ofNat
  rw [h65535]
  constructor
  · rintro ⟨h₁, h₂⟩
    have hmid : (32767 : ℚ) < n := by
      have h := nonneg_of_mul_nonneg_left h₁ hpos
      linarith
    have hend : (n : ℚ) < 36230 := by
      by_contra h
      have hle : (6925 / 2 : ℚ) ≤ n - 65535 / 2 := by linarith [not_lt.mp h]
      have hmul := mul_le_mul_of_nonneg_right hle hpos.le
      linarith
    exact ⟨by exact_mod_cast hmid, Nat.le_of_lt_succ (by exact_mod_cast hend)⟩
  · rintro ⟨h₁, h₂⟩
    have h₁' : (32768 : ℚ) ≤ n := by exact_mod_cast h₁
    have h₂' : (n : ℚ) ≤ 36229 := by exact_mod_cast h₂
    have hle : (n : ℚ) - 65535 / 2 ≤ 6923 / 2 := by linarith
    have hmul := mul_le_mul_of_nonneg_right hle hpos.le
    exact ⟨mul_nonneg (by linarith) hpos.le, by linarith⟩

theorem angle_roundTrips_iff (l : Limits) (raw : BitVec 16) :
    RoundTrips (encodeChannel l .angle) (decodeChannel l .angle) raw ↔ AngleReturns raw := by
  have hlt := raw.isLt
  rw [roundTrips_iff, AngleReturns]
  show level (-(4 * rsPi)) (4 * rsPi) 65535 (value (-12.57) 12.57 65535 raw.toNat) = _ ↔ _
  generalize raw.toNat = n at hlt
  have hpos : -(4 * rsPi) < 4 * rsPi := by norm_num [rsPi]
  have hvalue : value (-12.57 : ℚ) 12.57 65535 n = n * (25.14 / 65535) - 12.57 := by
    rw [value]
    norm_num
    ring
  rcases lt_or_ge (value (-12.57) 12.57 65535 n) (-(4 * rsPi)) with hlo | hlo
  · -- below the encoder's range the level is `0`
    rw [level_low hpos hlo.le]
    rw [hvalue] at hlo
    have hn : n < 10 := by
      have h : (n : ℚ) < 10 := by norm_num [rsPi] at hlo; linarith
      exact_mod_cast h
    omega
  · rcases lt_or_ge (4 * rsPi) (value (-12.57) 12.57 65535 n) with hhi | hhi
    · -- above it the level is the top
      rw [level_high hpos hhi.le]
      rw [hvalue] at hhi
      have hn : 65525 < n := by
        have h : (65525 : ℚ) < n := by norm_num [rsPi] at hhi; linarith
        exact_mod_cast h
      omega
    · -- inside it the level has moved by its distance from the middle
      rw [level_value_other_iff (by norm_num [rsPi]) (by norm_num) hlo hhi, moved_less_iff]
      rw [hvalue] at hlo hhi
      have h₀ : n ≠ 0 := by
        rintro rfl
        norm_num [rsPi] at hlo
      have hend : n ≠ 65535 := by
        rintro rfl
        norm_num [rsPi] at hhi
      omega

/-- An angle decodes to itself, stretched, less its place in its cell. -/
theorem angle_withinStep_iff (l : Limits) {x : ℚ} (h₁ : -(4 * rsPi) ≤ x) (h₂ : x ≤ 4 * rsPi) :
    WithinStep l .angle x ↔ AngleDriftsLittle x := by
  have hstep : feedbackStep l .angle = 25.14 / 65535 := by
    norm_num [feedbackStep, feedbackLimit, channelSteps]
  have hvalue : value (-12.57) 12.57 65535 (level (-(4 * rsPi)) (4 * rsPi) 65535 x) - x =
      angleDrift x - angleRest x * (25.14 / 65535) := by
    rw [value_level_other (by norm_num [rsPi]) (by norm_num) h₁ h₂, angleDrift, angleRest]
    norm_num
    ring
  rw [withinStep_iff, hstep]
  show |value (-12.57) 12.57 65535 (level (-(4 * rsPi)) (4 * rsPi) 65535 x) - x| ≤ _ ↔ _
  rw [hvalue, abs_le, AngleDriftsLittle]
  constructor
  · rintro ⟨hlow, hhigh⟩
    constructor <;> linarith
  · rintro ⟨hlow, hhigh⟩
    constructor <;> linarith

/-- **Consistency of command and feedback**, for every positive torque limit: velocity and torque
meet it throughout; a raw angle comes back exactly when it is an end of the range or lies from the
middle on to 36229, and an angle decodes to within a step exactly when the ranges' drift leaves it
there. -/
theorem mit_scaling_iff (l : Limits) (c : Channel) :
    (∀ raw : BitVec 16, raw.toNat ≤ channelSteps c →
      (RoundTrips (encodeChannel l c) (decodeChannel l c) raw ↔ (c = .angle → AngleReturns raw))) ∧
    ∀ x, -channelLimit l c ≤ x → x ≤ channelLimit l c →
      (WithinStep l c x ↔ (c = .angle → AngleDriftsLittle x)) := by
  by_cases hc : c = .angle
  · subst hc
    have hangle : ∀ p : Prop, p ↔ (Channel.angle = .angle → p) :=
      fun p => ⟨fun h _ => h, fun h => h rfl⟩
    exact ⟨fun raw _ => (angle_roundTrips_iff l raw).trans (hangle _),
      fun x h₁ h₂ => (angle_withinStep_iff l h₁ h₂).trans (hangle _)⟩
  · have hrange : feedbackLimit l c = channelLimit l c := feedbackLimit_of_ne hc
    exact ⟨fun raw hraw => iff_of_true (roundTrips_of_range hrange hraw) fun h => absurd h hc,
      fun x h₁ h₂ => iff_of_true (withinStep_of_range hrange h₁ h₂) fun h => absurd h hc⟩

/-- **The raw angle 1** does not come back: it decodes below the encoder's range, to `0`. -/
theorem mit_angle_drifts : ¬ ∀ (l : Limits) (c : Channel),
    (∀ raw : BitVec 16, raw.toNat ≤ channelSteps c →
      RoundTrips (encodeChannel l c) (decodeChannel l c) raw) ∧
    ∀ x, -channelLimit l c ≤ x → x ≤ channelLimit l c → WithinStep l c x := by
  intro hall
  have hback := (hall ⟨1, 1, one_pos, one_pos⟩ .angle).1 1 (by decide)
  rw [angle_roundTrips_iff, AngleReturns] at hback
  revert hback
  decide

end ProtocolMIT

end Robstride
