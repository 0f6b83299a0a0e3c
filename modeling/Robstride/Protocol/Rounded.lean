import Robstride.Protocol.Fields
import Robstride.Protocol.Roundtrip
import Robstride.Sdk.Binary32

/-!
# Protocol — Scaling with rounding

What rounding does to the setpoints of a control frame and to the numbers read back.  A place is
computed with three roundings, together less than an 80th of a step.
-/

namespace Robstride

open Support Support.ExtRat BinaryFormat.Number
open BinaryFormat (Multiple Represents round_of_represents round_represents round_nonneg
  rounded_nonneg rounded_not_finite scaled_nonneg scaled_mono scaled_sub_le round_mono)

/-! ### binary32 -/

namespace Binary32

theorem unit_eq : (binary32.unit : ℚ) = 1 / 2 ^ 24 := by
  norm_num [BinaryFormat.unit, binary32]

theorem tiny_eq : (binary32.tiny : ℚ) = 1 / 2 ^ 150 := by
  norm_num [BinaryFormat.tiny, binary32, zpow_neg]

theorem top_eq : (2 : ℚ) ^ (binary32.emax + 1) = 2 ^ 128 := by
  norm_num [binary32]

/-- What is kept of a number from `0` on. -/
theorem rounded_fin {q : ℚ} (h : 0 ≤ q) : binary32.rounded (fin q) =
    if binary32.round q < 2 ^ 128 then fin (binary32.round q) else posInf := by
  rw [rounded_nonneg h, top_eq]

theorem represents_natCast {n : ℕ} (h : n < 2 ^ 24) : binary32.Represents (n : ℚ) := by
  refine ⟨n, 0, ?_, by decide, by simp⟩
  rw [abs_of_nonneg (Int.natCast_nonneg n)]
  exact_mod_cast h

/-- A literal that is a small natural number is itself. -/
theorem literal_natCast {n : ℕ} (h : n < 2 ^ 24) : (literal (n : ℚ) : Binary32).val = fin n := by
  have hlt : (n : ℚ) < 2 ^ 128 := by
    have : (n : ℚ) < 2 ^ 24 := by exact_mod_cast h
    linarith
  rw [literal, val_ofExt, rounded_fin (Nat.cast_nonneg n),
    round_of_represents (represents_natCast h), if_pos hlt]

theorem represents_of_val {x : Binary32} {q : ℚ} (h : x.val = fin q) : binary32.Represents q := by
  have hx := x.holds
  rw [h] at hx
  exact hx.1

/-! ### The computed level -/

/-- The last three operations of an encoder. -/
def quotient (steps : ℕ) (span y : Binary32) : Option (BitVec 16) :=
  ((y * literal steps).div? span).bind fun z => z.val.toUInt? 16

/-- The level that `quotient` gives: the number is scaled, or vanishes before an infinite span. -/
def computedLevel (steps : ℕ) (span a : ℚ) : ℕ :=
  if span < 2 ^ 128 then ⌊binary32.scaled a steps span⌋₊ else 0

theorem posInf_mul {q : ℚ} (h : 0 < q) : posInf * fin q = posInf := by
  show ofSgn (1 * (fin q).sgn) = posInf
  simp [sgn, ofSgn, h]

theorem posInf_div? {q : ℚ} (h : 0 < q) : posInf.div? (fin q) = some posInf := by
  simp [ExtRat.div?, sgn, ofSgn, h, h.ne']

section

variable {steps : ℕ} {span y : Binary32} {s : ℚ}

/-- A span from `0` on, as it is held. -/
theorem span_val (hrep : binary32.Represents s) (hs : 0 < s)
    (hspan : span.val = binary32.rounded (fin s)) :
    span.val = if s < 2 ^ 128 then fin s else posInf := by
  rw [hspan, rounded_fin hs.le, round_of_represents hrep]

theorem quotient_eq (hsteps : steps ≤ 65535) : quotient steps span y =
    ((binary32.rounded (y.val * fin steps)).div? span.val).bind fun z =>
      (binary32.rounded z).toUInt? 16 := by
  have hlit : (literal (steps : ℚ) : Binary32).val = fin steps := literal_natCast (by omega)
  rw [quotient, BinaryFormat.Number.div?, val_mul, hlit, Option.bind_map]
  rfl

/-- An infinity has no level. -/
theorem quotient_overflow (hsteps : steps ≤ 65535) (hrep : binary32.Represents s) (hs : 0 < s)
    (hspan : span.val = binary32.rounded (fin s))
    (hy : binary32.rounded (y.val * fin steps) = posInf) : quotient steps span y = none := by
  rw [quotient_eq hsteps, hy, span_val hrep hs hspan]
  by_cases h : s < 2 ^ 128
  · rw [if_pos h, posInf_div? hs]
    rfl
  · rw [if_neg h]
    rfl

/-- A number that does not overflow has the computed level, where that is a `uint16_t`. -/
theorem quotient_fin {b : ℚ} (hsteps : steps ≤ 65535) (hrep : binary32.Represents s) (hs : 0 < s)
    (hspan : span.val = binary32.rounded (fin s)) (hb : 0 ≤ b) (hy : y.val = fin b)
    (hfit : binary32.round (b * steps) < 2 ^ 128) (hlevel : binary32.scaled b steps s < 2 ^ 16) :
    ∃ raw, quotient steps span y = some raw ∧ raw.toNat = computedLevel steps s b := by
  have hprod : 0 ≤ b * steps := mul_nonneg hb (Nat.cast_nonneg steps)
  rw [quotient_eq hsteps, hy, mul_fin, rounded_fin hprod, if_pos hfit, span_val hrep hs hspan,
    computedLevel]
  by_cases h : s < 2 ^ 128
  · have hnonneg : 0 ≤ binary32.scaled b steps s := scaled_nonneg steps hb hs.le
    have hquot : 0 ≤ binary32.round (b * steps) / s := div_nonneg (round_nonneg hprod) hs.le
    have hround : binary32.round (binary32.round (b * steps) / s) < 2 ^ 128 :=
      lt_trans hlevel (by norm_num)
    rw [if_pos h, if_pos h, div?_fin hs.ne', Option.bind_some, rounded_fin hquot, if_pos hround]
    exact ⟨_, toUInt?_fin hnonneg hlevel, toNat_floor hnonneg hlevel⟩
  · rw [if_neg h, if_neg h]
    have hzero : binary32.rounded (fin 0) = fin 0 := by
      rw [rounded_fin le_rfl, BinaryFormat.round_zero, if_pos (by norm_num)]
    refine ⟨0, ?_, rfl⟩
    show (binary32.rounded (fin 0)).toUInt? 16 = some 0
    rw [hzero, toUInt?_fin le_rfl (by norm_num)]
    simp

/-! ### How far off -/

/-- **Three roundings** move a place by less than an 80th of a step. -/
theorem scaled_near {a : ℚ} (hsteps : steps ≤ 65535) (ha : 0 ≤ a) (has : a ≤ s) (hs : 0 < s)
    (hmul : binary32.Multiple a) :
    |binary32.scaled (binary32.round a) steps s - a * steps / s| ≤ 1 / 80 := by
  have hplace : a * steps / s ≤ 65535 := by
    rw [div_le_iff₀ hs]
    have hn : (steps : ℚ) ≤ 65535 := by exact_mod_cast hsteps
    nlinarith
  have hnonneg : 0 ≤ a * steps / s := by positivity
  have h := scaled_sub_le (s := s) steps (round_represents a).multiple hmul.within_round
  rw [unit_eq, tiny_eq, abs_of_nonneg hnonneg] at h
  refine h.trans ?_
  linarith

/-- The computed level is the cell of the place but for an 80th of a step. -/
theorem computedLevel_near {a : ℚ} (hsteps : steps ≤ 65535) (ha : 0 ≤ a) (has : a ≤ s)
    (hs : 0 < s) (hmul : binary32.Multiple a)
    (hfit : binary32.round (binary32.round a * steps) < 2 ^ 128) :
    (computedLevel steps s (binary32.round a) : ℚ) ≤ a * steps / s + 1 / 80 ∧
      a * steps / s < computedLevel steps s (binary32.round a) + 1 + 1 / 80 := by
  have hnonneg : 0 ≤ a * steps / s := by positivity
  unfold computedLevel
  by_cases h : s < 2 ^ 128
  · have hnear := abs_le.mp (scaled_near hsteps ha has hs hmul)
    have hscaled : 0 ≤ binary32.scaled (binary32.round a) steps s :=
      scaled_nonneg steps (round_nonneg ha) hs.le
    have hfloor := Nat.floor_le hscaled
    have hlt := Nat.lt_floor_add_one (binary32.scaled (binary32.round a) steps s)
    rw [if_pos h]
    constructor <;> linarith
  · -- an infinite span: the place itself is in the lowest cell
    have hmul' : binary32.Multiple (binary32.round a * (steps : ℚ)) :=
      (round_represents a).multiple.mul_natCast steps
    have hprod : InProportion _ (a * (steps : ℚ)) (binary32.round (binary32.round a * steps)) :=
      (hmul.within_round.mul steps).trans BinaryFormat.unit_pos.le hmul'.within_round
    have habs : |a * (steps : ℚ)| = a * steps := abs_of_nonneg (by positivity)
    rw [InProportion, unit_eq, habs, abs_le] at hprod
    have hsize : a * steps / s < 1 + 1 / 80 := by
      rw [div_lt_iff₀ hs]
      linarith [hprod.1]
    rw [if_neg h]
    push_cast
    constructor <;> linarith

/-- It is one of the levels, so a `uint16_t` holds it. -/
theorem exists_raw_computedLevel {a : ℚ} (hsteps : steps ≤ 65535) (ha : 0 ≤ a) (has : a ≤ s)
    (hs : 0 < s) (hmul : binary32.Multiple a)
    (hfit : binary32.round (binary32.round a * steps) < 2 ^ 128) :
    ∃ raw : BitVec 16, raw.toNat = computedLevel steps s (binary32.round a) := by
  obtain ⟨hle, -⟩ := computedLevel_near hsteps ha has hs hmul hfit
  have hplace : a * steps / s ≤ steps := by
    rw [div_le_iff₀ hs]
    have hn : (0 : ℚ) ≤ steps := Nat.cast_nonneg steps
    nlinarith
  have hlt : (computedLevel steps s (binary32.round a) : ℚ) < (steps + 1 : ℕ) := by
    push_cast
    linarith
  have hlevel : computedLevel steps s (binary32.round a) < steps + 1 := by exact_mod_cast hlt
  exact ⟨BitVec.ofNat 16 _, BitVec.toNat_ofNat .. |>.trans (Nat.mod_eq_of_lt (by omega))⟩

theorem computedLevel_mono {a b : ℚ} (hs : 0 < s) (h : a ≤ b) :
    computedLevel steps s a ≤ computedLevel steps s b := by
  unfold computedLevel
  split_ifs
  · exact Nat.floor_mono (scaled_mono steps hs.le h)
  · exact le_rfl

/-- **What `quotient` gives** for a number that is held: a level exactly when nothing
overflows. -/
theorem quotient_some_iff {a : ℚ} {raw : BitVec 16} (hsteps : steps ≤ 65535)
    (hpos : 0 < steps) (hrep : binary32.Represents s) (hs : 0 < s)
    (hspan : span.val = binary32.rounded (fin s)) (ha : 0 ≤ a) (has : a ≤ s)
    (hmul : binary32.Multiple a) (hy : y.val = binary32.rounded (fin a)) :
    quotient steps span y = some raw ↔
      binary32.round a < 2 ^ 128 ∧ binary32.round (binary32.round a * steps) < 2 ^ 128 ∧
        raw.toNat = computedLevel steps s (binary32.round a) := by
  have hround : 0 ≤ binary32.round a := round_nonneg ha
  rw [rounded_fin ha] at hy
  by_cases h₁ : binary32.round a < 2 ^ 128
  · rw [if_pos h₁] at hy
    by_cases h₂ : binary32.round (binary32.round a * steps) < 2 ^ 128
    · have hlevel : binary32.scaled (binary32.round a) steps s < 2 ^ 16 := by
        have hnear := abs_le.mp (scaled_near hsteps ha has hs hmul)
        have hplace : a * steps / s ≤ 65535 := by
          rw [div_le_iff₀ hs]
          have hn : (steps : ℚ) ≤ 65535 := by exact_mod_cast hsteps
          nlinarith
        linarith
      obtain ⟨raw', hraw', hlevel'⟩ := quotient_fin hsteps hrep hs hspan hround hy h₂ hlevel
      rw [hraw', Option.some.injEq]
      refine ⟨?_, fun ⟨_, _, h⟩ => ?_⟩
      · rintro rfl
        exact ⟨h₁, h₂, hlevel'⟩
      · exact BitVec.eq_of_toNat_eq (hlevel'.trans h.symm)
    · have hnone : quotient steps span y = none := by
        refine quotient_overflow hsteps hrep hs hspan ?_
        rw [hy, mul_fin, rounded_fin (by positivity), if_neg h₂]
      simp [hnone, h₂]
  · have hnone : quotient steps span y = none := by
      refine quotient_overflow hsteps hrep hs hspan ?_
      rw [hy, if_neg h₁, posInf_mul (by exact_mod_cast hpos)]
      rfl
    simp [hnone, h₁]

theorem quotient_nan (hsteps : steps ≤ 65535) (hy : y.val = nan) :
    quotient steps span y = none := by
  have hprod : binary32.rounded (nan * fin steps) = nan := by
    rw [nan_mul]
    rfl
  rw [quotient_eq hsteps, hy, hprod]
  cases hdiv : nan.div? span.val with
  | none => rfl
  | some z =>
      rw [nan_div? span.val hdiv]
      rfl

/-- A quotient of two that are no rationals has no level. -/
theorem quotient_not_finite (hsteps : steps ≤ 65535) (hy : y.val.isFinite = false)
    (hspan : span.val.isFinite = false) : quotient steps span y = none := by
  have hprod : (binary32.rounded (y.val * fin steps)).isFinite = false :=
    rounded_not_finite (mul_not_finite (.inl hy))
  rw [quotient_eq hsteps, div?_not_finite hprod hspan]
  rfl

theorem quotient_zero (hsteps : steps ≤ 65535) (hspan : span.val = fin 0) :
    quotient steps span y = none := by
  rw [quotient_eq hsteps, hspan, div?_zero]
  rfl

end

/-! ### Setpoints -/

section

variable {steps : ℕ} {span x limit : Binary32} {L : ℚ}

theorem encodeSigned_eq : encodeSigned steps span x limit =
    (x.clamp? (-limit) limit).bind fun c => quotient steps span (c + limit) := rfl

/-- The number that a clamp leaves is one of the format. -/
theorem clamp?_represents {lo hi : Binary32} {l h : ℚ} (hlo : lo.val = fin l) (hhi : hi.val = fin h)
    (hle : l ≤ h) (hx : x.val ≠ nan) : ∃ c q, x.clamp? lo hi = some c ∧ c.val = fin q ∧
      x.val.clamp? (fin l) (fin h) = some (fin q) ∧ l ≤ q ∧ q ≤ h := by
  obtain ⟨q, hq, h₁, h₂⟩ := clamp?_fin l h hx hle
  have hmap := clamp?_val x lo hi
  rw [hlo, hhi, hq, Option.map_eq_some_iff] at hmap
  obtain ⟨c, hc, hval⟩ := hmap
  exact ⟨c, q, hc, hval, hq, h₁, h₂⟩

/-- A NaN passes through a clamp. -/
theorem clamp?_val_nan {lo hi c : Binary32} (hx : x.val = nan) (hc : x.clamp? lo hi = some c) :
    c.val = nan := by
  have hmap := clamp?_val x lo hi
  rw [hc, hx, Option.map_some] at hmap
  cases hlt : hi.val.lt lo.val with
  | true =>
      rw [ExtRat.clamp?, if_pos hlt] at hmap
      cases hmap
  | false =>
      rw [clamp?_nan hlt] at hmap
      exact Option.some.inj hmap

/-- **What a signed setpoint encodes to** at a positive limit. -/
theorem encodeSigned_some_iff (hsteps : steps ≤ 65535) (hpos : 0 < steps)
    (hlimit : limit.val = fin L) (hL : 0 < L) (hspan : span.val = binary32.rounded (fin (2 * L)))
    (hx : x.val ≠ nan) :
    ∃ c, x.val.clamp? (fin (-L)) (fin L) = some (fin c) ∧ -L ≤ c ∧ c ≤ L ∧
      binary32.Multiple (c + L) ∧ ∀ raw, encodeSigned steps span x limit = some raw ↔
        binary32.round (c + L) < 2 ^ 128 ∧
          binary32.round (binary32.round (c + L) * steps) < 2 ^ 128 ∧
          raw.toNat = computedLevel steps (2 * L) (binary32.round (c + L)) := by
  have hneg : (-limit).val = fin (-L) := by rw [val_neg, hlimit, neg_fin]
  obtain ⟨c, q, hc, hval, hq, h₁, h₂⟩ :=
    clamp?_represents (x := x) hneg hlimit (by linarith) hx
  have hrep : binary32.Represents L := represents_of_val hlimit
  have hmul : binary32.Multiple (q + L) := (represents_of_val hval).multiple.add hrep.multiple
  have hsum : (c + limit).val = binary32.rounded (fin (q + L)) := by
    rw [val_add, hval, hlimit, add_fin]
  refine ⟨q, hq, h₁, h₂, hmul, fun raw => ?_⟩
  rw [encodeSigned_eq, hc, Option.bind_some]
  exact quotient_some_iff hsteps hpos hrep.two_mul (by linarith) hspan (by linarith)
    (by linarith) hmul hsum

theorem encodeSigned_nan (hsteps : steps ≤ 65535) (hx : x.val = nan) :
    encodeSigned steps span x limit = none := by
  rw [encodeSigned_eq]
  cases hc : x.clamp? (-limit) limit with
  | none => rfl
  | some c =>
      refine quotient_nan hsteps ?_
      rw [val_add, clamp?_val_nan hx hc, nan_add]
      rfl

/-- At a span of twice the limit, a limit that is no positive rational encodes nothing. -/
theorem encodeSigned_bad_limit (hsteps : steps ≤ 65535) (h : ¬ Positive limit.val) :
    encodeSigned steps (literal 2 * limit) x limit = none := by
  have htwo : (literal 2 : Binary32).val = fin 2 := by
    exact_mod_cast literal_natCast (n := 2) (by norm_num)
  rw [encodeSigned_eq]
  cases hc : x.clamp? (-limit) limit with
  | none => rfl
  | some c =>
      rw [Option.bind_some]
      cases hfin : limit.val.isFinite with
      | false =>
          refine quotient_not_finite hsteps ?_ ?_
          · rw [val_add]
            exact rounded_not_finite (add_not_finite c.val hfin)
          · rw [val_mul]
            exact rounded_not_finite (mul_not_finite (.inr hfin))
      | true =>
          cases hval : limit.val with
          | posInf | negInf | nan =>
              rw [hval] at hfin
              cases hfin
          | fin L =>
              rw [hval, positive_fin, not_lt] at h
              rcases h.eq_or_lt with rfl | hneg
              · refine quotient_zero hsteps ?_
                rw [val_mul, htwo, hval, mul_fin, mul_zero, rounded_fin le_rfl,
                  BinaryFormat.round_zero, if_pos (by norm_num)]
              · -- the bounds of the clamp are out of order
                have hlt : L < -L := by linarith
                simp [BinaryFormat.Number.clamp?, hval, hlt] at hc

end

/-! ### Gains -/

section

variable {steps top : ℕ} {x : Binary32}

theorem encodeUnsigned_eq {max : Binary32} : encodeUnsigned steps max x =
    (x.clamp? (literal 0) max).bind fun c => quotient steps max c := rfl

theorem literal_zero : (literal 0 : Binary32).val = fin 0 := by
  exact_mod_cast literal_natCast (n := 0) (by norm_num)

/-- **What a gain encodes to** at a small natural maximum. -/
theorem encodeUnsigned_some_iff (hsteps : steps ≤ 65535) (hpos : 0 < steps) (htop : 0 < top)
    (htop' : top < 2 ^ 24) (hx : x.val ≠ nan) :
    ∃ c, x.val.clamp? (fin 0) (fin top) = some (fin c) ∧ 0 ≤ c ∧ c ≤ top ∧
      binary32.Represents c ∧ binary32.round (c * steps) < 2 ^ 128 ∧
      ∀ raw, encodeUnsigned steps (literal top) x = some raw ↔
        raw.toNat = computedLevel steps top c := by
  have hmax : (literal (top : ℚ) : Binary32).val = fin top := literal_natCast htop'
  obtain ⟨c, q, hc, hval, hq, h₁, h₂⟩ :=
    clamp?_represents (x := x) literal_zero hmax (Nat.cast_nonneg top) hx
  have hrep : binary32.Represents q := represents_of_val hval
  have htopRat : (0 : ℚ) < top := by exact_mod_cast htop
  have hsmall : (top : ℚ) < 2 ^ 24 := by exact_mod_cast htop'
  have hround : binary32.round q = q := round_of_represents hrep
  have hself : binary32.rounded (fin q) = fin q := by
    rw [rounded_fin h₁, hround, if_pos (by linarith)]
  have hspan : (literal (top : ℚ) : Binary32).val = binary32.rounded (fin top) := rfl
  have hprod : binary32.round (q * steps) < 2 ^ 128 := by
    have hn : (steps : ℚ) ≤ 65535 := by exact_mod_cast hsteps
    have hle : q * steps ≤ (2 ^ 40 : ℕ) := by
      push_cast
      nlinarith
    have hrep' : binary32.Represents ((2 ^ 40 : ℕ) : ℚ) :=
      ⟨1, 40, by decide, by decide, by norm_num⟩
    calc binary32.round (q * steps) ≤ (2 ^ 40 : ℕ) := BinaryFormat.round_le_of_represents hrep' hle
      _ < 2 ^ 128 := by norm_num
  refine ⟨q, hq, h₁, h₂, hrep, hprod, fun raw => ?_⟩
  rw [encodeUnsigned_eq, hc, Option.bind_some,
    quotient_some_iff hsteps hpos (represents_of_val hmax) htopRat hspan h₁ h₂ hrep.multiple
      (hval.trans hself.symm), hround]
  constructor
  · exact fun h => h.2.2
  · exact fun h => ⟨by linarith, hprod, h⟩

theorem encodeUnsigned_nan {max : Binary32} (hsteps : steps ≤ 65535) (hx : x.val = nan) :
    encodeUnsigned steps max x = none := by
  rw [encodeUnsigned_eq]
  cases hc : x.clamp? (literal 0) max with
  | none => rfl
  | some c => exact quotient_nan hsteps (clamp?_val_nan hx hc)

end

/-! ### Encoders -/

/-- `raw` is a level of the interval, and the place of the number is in its cell but for `δ`
steps. -/
structure AtPlace (δ lo hi : ℚ) (steps : ℕ) (x : ExtRat) (raw : BitVec 16) : Prop where
  le : raw.toNat ≤ steps
  near : ∃ c, x.clamp? (fin lo) (fin hi) = some (fin c) ∧
    (raw.toNat : ℚ) ≤ place lo hi steps c + δ ∧ place lo hi steps c < raw.toNat + 1 + δ

/-- An encoder of an interval: at its place, and in order. -/
structure Encodes (δ lo hi : ℚ) (steps : ℕ) (encode : Binary32 → Option (BitVec 16)) : Prop where
  atPlace : ∀ {x raw}, encode x = some raw → AtPlace δ lo hi steps x.val raw
  mono : ∀ {x y r r'}, x.val.le y.val = true → encode x = some r → encode y = some r' →
    r.toNat ≤ r'.toNat

theorem le_of_near {n steps : ℕ} {t δ : ℚ} (ht : t ≤ steps) (hδ : δ < 1) (h : (n : ℚ) ≤ t + δ) :
    n ≤ steps := by
  have hlt : (n : ℚ) < steps + 1 := by linarith
  exact Nat.lt_succ_iff.mp (by exact_mod_cast hlt)

theorem place_signed (steps : ℕ) (L c : ℚ) : place (-L) L steps c = (c + L) * steps / (2 * L) := by
  rw [place, sub_neg_eq_add, sub_neg_eq_add, two_mul]

theorem place_unsigned (steps : ℕ) (top c : ℚ) : place 0 top steps c = c * steps / top := by
  rw [place, sub_zero, sub_zero]

section

variable {steps : ℕ}

/-- **A signed encoder** at a positive limit. -/
theorem encodes_signed {span limit : Binary32} {L : ℚ} (hsteps : steps ≤ 65535) (hpos : 0 < steps)
    (hlimit : limit.val = fin L) (hL : 0 < L)
    (hspan : span.val = binary32.rounded (fin (2 * L))) :
    Encodes (1 / 80) (-L) L steps fun x => encodeSigned steps span x limit := by
  have hle : -L ≤ L := by linarith
  have hnan : ∀ {x : Binary32} {raw}, encodeSigned steps span x limit = some raw →
      x.val ≠ nan := by
    intro x raw h hx
    rw [encodeSigned_nan hsteps hx] at h
    cases h
  constructor
  · intro x raw h
    obtain ⟨c, hc, h₁, h₂, hmul, hiff⟩ :=
      encodeSigned_some_iff hsteps hpos hlimit hL hspan (hnan h)
    obtain ⟨-, hfit, hraw⟩ := (hiff raw).mp h
    have hnear := computedLevel_near (s := 2 * L) hsteps (by linarith) (by linarith) (by linarith)
      hmul hfit
    rw [← hraw, ← place_signed] at hnear
    have htop : place (-L) L steps c ≤ steps := by
      have hhigh : place (-L) L steps L = steps := place_high (by linarith)
      rw [← hhigh]
      exact place_mono (by linarith) h₂
    exact ⟨le_of_near htop (by norm_num) hnear.1, c, hc, hnear⟩
  · intro x y r r' hxy hx hy
    obtain ⟨c, hc, -, -, -, hiff⟩ := encodeSigned_some_iff hsteps hpos hlimit hL hspan (hnan hx)
    obtain ⟨d, hd, -, -, -, hiff'⟩ := encodeSigned_some_iff hsteps hpos hlimit hL hspan (hnan hy)
    obtain ⟨-, -, hr⟩ := (hiff r).mp hx
    obtain ⟨-, -, hr'⟩ := (hiff' r').mp hy
    rw [hr, hr']
    have hcd : c ≤ d := clamp?_mono hle hxy hc hd
    exact computedLevel_mono (by linarith) (round_mono (by linarith))

/-- **A gain's encoder** at a small natural maximum. -/
theorem encodes_unsigned {top : ℕ} (hsteps : steps ≤ 65535) (hpos : 0 < steps) (htop : 0 < top)
    (htop' : top < 2 ^ 24) :
    Encodes (1 / 80) 0 top steps fun x => encodeUnsigned steps (literal top) x := by
  have htopRat : (0 : ℚ) < top := by exact_mod_cast htop
  have hnan : ∀ {x : Binary32} {raw}, encodeUnsigned steps (literal top) x = some raw →
      x.val ≠ nan := by
    intro x raw h hx
    rw [encodeUnsigned_nan hsteps hx] at h
    cases h
  constructor
  · intro x raw h
    obtain ⟨c, hc, h₁, h₂, hrep, hfit, hiff⟩ :=
      encodeUnsigned_some_iff hsteps hpos htop htop' (hnan h)
    have hround : binary32.round c = c := round_of_represents hrep
    have hnear := computedLevel_near (a := c) hsteps h₁ h₂ htopRat hrep.multiple
      (by rwa [hround])
    rw [hround, ← (hiff raw).mp h, ← place_unsigned] at hnear
    have hle : place 0 (top : ℚ) steps c ≤ steps := by
      have hhigh : place 0 (top : ℚ) steps top = steps := place_high htopRat
      rw [← hhigh]
      exact place_mono htopRat h₂
    exact ⟨le_of_near hle (by norm_num) hnear.1, c, hc, hnear⟩
  · intro x y r r' hxy hx hy
    obtain ⟨c, hc, -, -, -, -, hiff⟩ :=
      encodeUnsigned_some_iff hsteps hpos htop htop' (hnan hx)
    obtain ⟨d, hd, -, -, -, -, hiff'⟩ :=
      encodeUnsigned_some_iff hsteps hpos htop htop' (hnan hy)
    rw [(hiff r).mp hx, (hiff' r').mp hy]
    exact computedLevel_mono htopRat (clamp?_mono htopRat.le hxy hc hd)

/-- **Where there is a level**: for a signed setpoint other than NaN when its limit is positive,
and not so large that a product overflows. -/
theorem encodeSigned_isSome_iff {x limit : Binary32} (hsteps : steps ≤ 65535) (hpos : 0 < steps)
    (hsmall : ∀ L : ℚ, limit.val = fin L → L < 2 ^ 111) :
    (encodeSigned steps (literal 2 * limit) x limit).isSome ↔
      x.val ≠ nan ∧ Positive limit.val := by
  constructor
  · intro h
    refine ⟨fun hx => ?_, ?_⟩
    · rw [encodeSigned_nan hsteps hx] at h
      cases h
    · by_contra hno
      rw [encodeSigned_bad_limit hsteps hno] at h
      cases h
  · rintro ⟨hx, L, hL, hlimit⟩
    have hLsmall : L < 2 ^ 111 := hsmall L hlimit
    have htwo : (literal 2 : Binary32).val = fin 2 := by
      exact_mod_cast literal_natCast (n := 2) (by norm_num)
    have hspan : (literal 2 * limit : Binary32).val = binary32.rounded (fin (2 * L)) := by
      rw [val_mul, htwo, hlimit, mul_fin]
    obtain ⟨c, -, h₁, h₂, hmul, hiff⟩ :=
      encodeSigned_some_iff hsteps hpos hlimit hL hspan hx
    have hround : binary32.round (c + L) ≤ 2 * L :=
      BinaryFormat.round_le_of_represents (represents_of_val hlimit).two_mul (by linarith)
    have hfit : binary32.round (binary32.round (c + L) * steps) < 2 ^ 128 := by
      have hn : (steps : ℚ) ≤ 65535 := by exact_mod_cast hsteps
      have hnonneg : 0 ≤ binary32.round (c + L) := round_nonneg (by linarith)
      have hrep : binary32.Represents ((65535 * 2 ^ 112 : ℕ) : ℚ) :=
        ⟨65535, 112, by decide, by decide, by norm_num⟩
      have hle : binary32.round (c + L) * steps ≤ (65535 * 2 ^ 112 : ℕ) := by
        push_cast
        nlinarith
      calc binary32.round (binary32.round (c + L) * steps)
          ≤ (65535 * 2 ^ 112 : ℕ) := BinaryFormat.round_le_of_represents hrep hle
        _ < 2 ^ 128 := by norm_num
    obtain ⟨raw, hraw⟩ := exists_raw_computedLevel (s := 2 * L) hsteps (by linarith)
      (by linarith) (by linarith) hmul hfit
    rw [Option.isSome_iff_exists]
    exact ⟨raw, (hiff raw).mpr ⟨by linarith, hfit, hraw⟩⟩

theorem encodeUnsigned_isSome_iff {x : Binary32} (top : ℕ) (hsteps : steps ≤ 65535)
    (hpos : 0 < steps) (htop : 0 < top) (htop' : top < 2 ^ 24) :
    (encodeUnsigned steps (literal top) x).isSome ↔ x.val ≠ nan := by
  constructor
  · rintro h hx
    rw [encodeUnsigned_nan hsteps hx] at h
    cases h
  · intro hx
    obtain ⟨c, -, h₁, h₂, hrep, hfit, hiff⟩ :=
      encodeUnsigned_some_iff hsteps hpos htop htop' hx
    have hround : binary32.round c = c := round_of_represents hrep
    obtain ⟨raw, hraw⟩ := exists_raw_computedLevel hsteps h₁ h₂ (by exact_mod_cast htop)
      hrep.multiple (by rwa [hround])
    rw [hround] at hraw
    rw [Option.isSome_iff_exists]
    exact ⟨raw, (hiff raw).mpr hraw⟩

end

/-! ### Against exact arithmetic -/

/-- The clamp of a number other than NaN is the one of some rational, in every interval up to a
bound. -/
theorem exists_clampTo {x : ExtRat} (M : ℚ) (hx : x ≠ nan) : ∃ q : ℚ, ∀ B, 0 < B → B ≤ M →
    x.clamp? (fin (-B)) (fin B) = some (fin (clampTo (-B) B q)) := by
  cases x with
  | nan => exact absurd rfl hx
  | fin q => exact ⟨q, fun B hB _ => clamp?_rat q (by linarith)⟩
  | posInf =>
      refine ⟨M, fun B hB hM => ?_⟩
      have hle : -B ≤ B := by linarith
      simp [ExtRat.clamp?, ExtRat.lt, clampTo, hM, hle, hB.le]
  | negInf =>
      refine ⟨-M, fun B hB hM => ?_⟩
      have hmin : min (-M) B = -M := min_eq_left (by linarith)
      simp [ExtRat.clamp?, ExtRat.lt, clampTo, hmin, hM, hB.le]

/-- The computed level against the exact one: at the place of the number but for a 64th of a step,
so at most one level off. -/
structure NearLevel (lo hi : ℚ) (steps : ℕ) (x : ExtRat) (exact computed : BitVec 16) : Prop where
  atPlace : AtPlace (1 / 64) lo hi steps x computed
  computed_le : computed.toNat ≤ exact.toNat + 1
  exact_le : exact.toNat ≤ computed.toNat + 1

/-- The exact level is the cell of the place. -/
theorem near_of_floor {lo hi c : ℚ} {steps : ℕ} {x : ExtRat} {exact computed : BitVec 16}
    (hlo : lo < hi) (hc : lo ≤ c) (hx : x.clamp? (fin lo) (fin hi) = some (fin c))
    (hexact : exact.toNat = ⌊place lo hi steps c⌋₊)
    (h : AtPlace (1 / 64) lo hi steps x computed) : NearLevel lo hi steps x exact computed := by
  obtain ⟨d, hd, hle, hlt⟩ := h.near
  rw [hx] at hd
  cases hd
  have hplace : 0 ≤ place lo hi steps c := place_nonneg hlo hc
  have hfloor := Nat.floor_le hplace
  have hceil := Nat.lt_floor_add_one (place lo hi steps c)
  rw [← hexact] at hfloor hceil
  refine ⟨h, ?_, ?_⟩
  · have hnat : (computed.toNat : ℚ) < (exact.toNat + 1 + 1 : ℕ) := by
      push_cast
      linarith
    exact Nat.lt_succ_iff.mp (by exact_mod_cast hnat)
  · have hnat : (exact.toNat : ℚ) < (computed.toNat + 1 + 1 : ℕ) := by
      push_cast
      linarith
    exact Nat.lt_succ_iff.mp (by exact_mod_cast hnat)

section

variable {steps : ℕ} {x : ExtRat} {raw : BitVec 16}

theorem AtPlace.not_nan {δ lo hi : ℚ} (hle : lo ≤ hi) (h : AtPlace δ lo hi steps x raw) :
    x ≠ nan := by
  rintro rfl
  obtain ⟨c, hc, -⟩ := h.near
  rw [clamp?_nan (by simpa using hle)] at hc
  cases hc

theorem AtPlace.weaken {δ δ' lo hi : ℚ} (hδ : δ ≤ δ') (h : AtPlace δ lo hi steps x raw) :
    AtPlace δ' lo hi steps x raw := by
  obtain ⟨c, hc, hle, hlt⟩ := h.near
  exact ⟨h.le, c, hc, by linarith, by linarith⟩

/-- A level of one range is a level of another that is almost the same. -/
theorem AtPlace.range {L L' : ℚ} (hsteps : steps ≤ 65535) (hL : 0 < L) (hL' : 0 < L')
    (hclose : |L' - L| ≤ 1 / 2 ^ 24 * L) (h : AtPlace (1 / 80) (-L') L' steps x raw) :
    AtPlace (1 / 64) (-L) L steps x raw := by
  obtain ⟨q, hq⟩ := exists_clampTo (max L L') (h.not_nan (by linarith))
  obtain ⟨c, hc, hle, hlt⟩ := h.near
  rw [hq L' hL' (le_max_right _ _)] at hc
  cases hc
  have hmoved : |place (-L') L' steps (clampTo (-L') L' q) -
      place (-L) L steps (clampTo (-L) L q)| ≤ |L' - L| / L * (steps / 2) :=
    abs_place_clampTo_sub_le hL hL' q
  have hratio : |L' - L| / L ≤ 1 / 2 ^ 24 := (div_le_iff₀ hL).mpr hclose
  have hhalf : |L' - L| / L * (steps / 2) ≤ 1 / 2 ^ 24 * (65535 / 2) := by
    have hn : (steps : ℚ) ≤ 65535 := by exact_mod_cast hsteps
    have hnonneg : 0 ≤ |L' - L| / L := by positivity
    exact mul_le_mul hratio (by linarith) (by positivity) (by norm_num)
  have hsmall := abs_le.mp (hmoved.trans hhalf)
  refine ⟨h.le, _, hq L hL (le_max_left _ _), ?_, ?_⟩
  · linarith [hsmall.1]
  · linarith [hsmall.2]

end

/-! ### The fields of a control frame -/

section

variable {steps : ℕ} {x limit : Binary32} {raw : BitVec 16}

theorem literal_two : (literal 2 : Binary32).val = fin 2 := by
  exact_mod_cast literal_natCast (n := 2) (by norm_num)

theorem literal_thirtyThree : (literal 33 : Binary32).val = fin 33 := by
  exact_mod_cast literal_natCast (n := 33) (by norm_num)

/-- A signed setpoint at the limit of the profile. -/
theorem near_signed {L : ℚ} (hsteps : steps ≤ 65535) (hpos : 0 < steps)
    (hlimit : limit.val = fin L) (hL : 0 < L)
    (h : encodeSigned steps (literal 2 * limit) x limit = some raw) :
    ∃ exact, Robstride.encodeSigned steps (fin 2 * limit.val) x.val limit.val = some exact ∧
      NearLevel (-L) L steps x.val exact raw := by
  have hspan : (literal 2 * limit : Binary32).val = binary32.rounded (fin (2 * L)) := by
    rw [val_mul, literal_two, hlimit, mul_fin]
  have hplace := (encodes_signed hsteps hpos hlimit hL hspan).atPlace h
  obtain ⟨c, hc, h₁, h₂⟩ := clamp?_fin (-L) L (hplace.not_nan (by linarith)) (by linarith)
  obtain ⟨exact, hexact, hfloor⟩ := encodeSigned_of_clamp hsteps hL hc h₁ h₂
  rw [← place_signed] at hfloor
  refine ⟨exact, ?_, near_of_floor (by linarith) h₁ hc hfloor (hplace.weaken (by norm_num))⟩
  rw [hlimit, mul_fin]
  exact hexact

/-- A gain. -/
theorem near_unsigned {top : ℕ} (hsteps : steps ≤ 65535) (hpos : 0 < steps) (htop : 0 < top)
    (htop' : top < 2 ^ 24) (h : encodeUnsigned steps (literal top) x = some raw) :
    ∃ exact, Robstride.encodeUnsigned steps (fin top) x.val = some exact ∧
      NearLevel 0 top steps x.val exact raw := by
  have htopRat : (0 : ℚ) < top := by exact_mod_cast htop
  have hplace := (encodes_unsigned hsteps hpos htop htop').atPlace h
  obtain ⟨c, hc, h₁, h₂⟩ := clamp?_fin 0 (top : ℚ) (hplace.not_nan htopRat.le) htopRat.le
  obtain ⟨exact, hexact, hfloor⟩ := encodeUnsigned_of_clamp hsteps htopRat hc h₁ h₂
  rw [← place_unsigned] at hfloor
  exact ⟨exact, hexact, near_of_floor htopRat h₁ hc hfloor (hplace.weaken (by norm_num))⟩

/-- One of the two gains, at its maximum as written. -/
theorem near_gain {top : ℚ} (htop : top = 500 ∨ top = 5) (hsteps : steps ≤ 65535)
    (hpos : 0 < steps) (h : encodeUnsigned steps (literal top) x = some raw) :
    ∃ exact, Robstride.encodeUnsigned steps (fin top) x.val = some exact ∧
      NearLevel 0 top steps x.val exact raw := by
  obtain ⟨n, rfl, hn, hn'⟩ : ∃ n : ℕ, top = n ∧ 0 < n ∧ n < 2 ^ 24 := by
    rcases htop with rfl | rfl
    · exact ⟨500, by norm_num, by norm_num, by norm_num⟩
    · exact ⟨5, by norm_num, by norm_num, by norm_num⟩
  exact near_unsigned hsteps hpos hn hn' h

theorem encodeGain_isSome_iff {top : ℚ} (htop : top = 500 ∨ top = 5) (hsteps : steps ≤ 65535)
    (hpos : 0 < steps) : (encodeUnsigned steps (literal top) x).isSome ↔ x.val ≠ nan := by
  rcases htop with rfl | rfl
  · exact_mod_cast encodeUnsigned_isSome_iff 500 hsteps hpos (by norm_num) (by norm_num)
  · exact_mod_cast encodeUnsigned_isSome_iff 5 hsteps hpos (by norm_num) (by norm_num)

/-! #### The range of angles -/

/-- `4.0f * RS_PI`, the `float`: within a unit of rounding of the exact one; `8.0f * RS_PI` is its
double. -/
theorem exists_fourPi : ∃ L' : ℚ, (literal 4 * rsPi : Binary32).val = fin L' ∧
    (literal 8 * rsPi : Binary32).val = fin (2 * L') ∧ 0 < L' ∧ L' < 2 ^ 111 ∧
    |L' - 4 * Robstride.rsPi| ≤ 1 / 2 ^ 24 * (4 * Robstride.rsPi) := by
  have hpi : 2 ≤ Robstride.rsPi ∧ Robstride.rsPi ≤ 4 := by norm_num [Robstride.rsPi]
  have htwo : binary32.Represents (2 : ℚ) := by
    exact_mod_cast represents_natCast (n := 2) (by norm_num)
  have hlow : 2 ≤ binary32.round Robstride.rsPi :=
    BinaryFormat.le_round_of_represents htwo hpi.1
  have hrepFour : binary32.Represents (4 : ℚ) := by
    exact_mod_cast represents_natCast (n := 4) (by norm_num)
  have hhigh : binary32.round Robstride.rsPi ≤ 4 :=
    BinaryFormat.round_le_of_represents hrepFour hpi.2
  have hval : rsPi.val = fin (binary32.round Robstride.rsPi) := by
    rw [rsPi, literal, val_ofExt, rounded_fin (by linarith), if_pos (by linarith)]
  have hfour : (literal 4 : Binary32).val = fin 4 := by
    exact_mod_cast literal_natCast (n := 4) (by norm_num)
  have height : (literal 8 : Binary32).val = fin 8 := by
    exact_mod_cast literal_natCast (n := 8) (by norm_num)
  -- a product with a power of two is exact
  have hrep₄ : binary32.Represents (4 * binary32.round Robstride.rsPi) := by
    have hrep := (round_represents (f := binary32) Robstride.rsPi).two_mul.two_mul
    have hsplit : 2 * (2 * binary32.round Robstride.rsPi) = 4 * binary32.round Robstride.rsPi := by
      ring
    rwa [hsplit] at hrep
  have hrep₈ : binary32.Represents (8 * binary32.round Robstride.rsPi) := by
    have hsplit : 2 * (4 * binary32.round Robstride.rsPi) = 8 * binary32.round Robstride.rsPi := by
      ring
    rw [← hsplit]
    exact hrep₄.two_mul
  have hnormal : (2 : ℚ) ^ binary32.emin ≤ |Robstride.rsPi| := by
    rw [abs_of_pos (by linarith)]
    refine le_trans ?_ hpi.1
    norm_num [binary32, zpow_neg]
  have hclose := BinaryFormat.within_round_of_normal hnormal
  rw [InProportion, unit_eq, abs_of_pos (show 0 < Robstride.rsPi by linarith)] at hclose
  refine ⟨4 * binary32.round Robstride.rsPi, ?_, ?_, by linarith, by linarith, ?_⟩
  · rw [val_mul, hfour, hval, mul_fin, rounded_fin (by linarith), round_of_represents hrep₄,
      if_pos (by linarith)]
  · rw [val_mul, height, hval, mul_fin, rounded_fin (by linarith), round_of_represents hrep₈,
      if_pos (by linarith)]
    congr 1
    ring
  · rw [← mul_sub, abs_mul, abs_of_pos (show (0 : ℚ) < 4 by norm_num)]
    linarith

/-- The encoder of angles, on its exact range. -/
theorem encodes_angle : Encodes (1 / 64) (-(4 * Robstride.rsPi)) (4 * Robstride.rsPi) 65535
    rsMathEncodeAngle := by
  obtain ⟨L', hval, -, hL', -, hclose⟩ := exists_fourPi
  have hspan : (literal 2 * (literal 4 * rsPi) : Binary32).val =
      binary32.rounded (fin (2 * L')) := by
    rw [val_mul, literal_two, hval, mul_fin]
  have henc := encodes_signed le_rfl (by norm_num) hval hL' hspan
  exact ⟨fun h => (henc.atPlace h).range le_rfl fourPi_pos hL' hclose, henc.mono⟩

theorem near_angle (h : rsMathEncodeAngle x = some raw) :
    ∃ exact, Robstride.rsMathEncodeAngle x.val = some exact ∧
      NearLevel (-(4 * Robstride.rsPi)) (4 * Robstride.rsPi) 65535 x.val exact raw := by
  have hplace' := encodes_angle.atPlace h
  have hle : -(4 * Robstride.rsPi) ≤ 4 * Robstride.rsPi := by
    have := fourPi_pos
    linarith
  obtain ⟨c, hc, h₁, h₂⟩ := clamp?_fin (-(4 * Robstride.rsPi)) (4 * Robstride.rsPi)
    (hplace'.not_nan hle) hle
  obtain ⟨exact, hexact, hfloor⟩ := encodeSigned_of_clamp le_rfl fourPi_pos hc h₁ h₂
  rw [← place_signed] at hfloor
  exact ⟨exact, hexact, near_of_floor (by linarith [fourPi_pos]) h₁ hc hfloor hplace'⟩

theorem positive_of_encodes (hsteps : steps ≤ 65535)
    (h : encodeSigned steps (literal 2 * limit) x limit = some raw) : Positive limit.val := by
  by_contra hno
  rw [encodeSigned_bad_limit hsteps hno] at h
  cases h

theorem encodeAngle_isSome_iff : (rsMathEncodeAngle x).isSome ↔ x.val ≠ nan := by
  obtain ⟨L', hval, -, hL', hsmall, -⟩ := exists_fourPi
  have hlimit : ∀ L : ℚ, (literal 4 * rsPi : Binary32).val = fin L → L < 2 ^ 111 := by
    intro L hL
    rw [hval] at hL
    cases hL
    exact hsmall
  rw [rsMathEncodeAngle, encodeSigned_isSome_iff le_rfl (by norm_num) hlimit]
  exact and_iff_left ⟨L', hL', hval⟩

/-- The span of the MIT velocities is twice their limit. -/
theorem literal_span : (literal 66 : Binary32) = literal 2 * literal 33 := by
  ext
  rw [val_mul, literal_two, literal_thirtyThree, mul_fin]
  show binary32.rounded (fin 66) = binary32.rounded (fin (2 * 33))
  norm_num

end

end Binary32

/-! ### Control frames -/

open Binary32

/-- Field by field, the computed raw values against the exact ones. -/
structure ProtocolPrivate.RawControl.Near (l : Limits) (torque pos vel kp kd : ExtRat)
    (exact raw : ProtocolPrivate.RawControl) : Prop where
  torque : NearLevel (-l.torque) l.torque 65535 torque exact.torque raw.torque
  position : NearLevel (-(4 * rsPi)) (4 * rsPi) 65535 pos exact.position raw.position
  velocity : NearLevel (-l.velocity) l.velocity 65535 vel exact.velocity raw.velocity
  kp : NearLevel 0 500 65535 kp exact.kp raw.kp
  kd : NearLevel 0 5 65535 kd exact.kd raw.kd

/-- Under the MIT protocol the profile has a part in the torque only. -/
structure ProtocolMIT.RawControl.Near (T : ℚ) (torque pos vel kp kd : ExtRat)
    (exact raw : ProtocolMIT.RawControl) : Prop where
  position : NearLevel (-(4 * rsPi)) (4 * rsPi) 65535 pos exact.position raw.position
  velocity : NearLevel (-33) 33 4095 vel exact.velocity raw.velocity
  kp : NearLevel 0 500 4095 kp exact.kp raw.kp
  kd : NearLevel 0 5 4095 kd exact.kd raw.kd
  torque : NearLevel (-T) T 4095 torque exact.torque raw.torque

section

variable {torque pos vel kp kd : Binary32} {profile : Binary32.Profile}

theorem scalePrivate_near {raw : ProtocolPrivate.RawControl}
    (h : scalePrivate torque pos vel kp kd profile = some raw) :
    ∃ (l : Limits) (exact : _), profile.exact = l.profile ∧
      ProtocolPrivate.scaleMitControl torque.val pos.val vel.val kp.val kd.val profile.exact =
        some exact ∧ exact.Near l torque.val pos.val vel.val kp.val kd.val raw := by
  obtain ⟨t, p, v, kp', kd', ht, hp, hv, hkp, hkd, rfl⟩ := five_eq_some _ _ _ _ _ _ h
  obtain ⟨T, hT, hTval⟩ := positive_of_encodes le_rfl ht
  obtain ⟨V, hV, hVval⟩ := positive_of_encodes le_rfl hv
  obtain ⟨et, het, hnt⟩ := near_signed le_rfl (by norm_num) hTval hT ht
  obtain ⟨ep, hep, hnp⟩ := near_angle hp
  obtain ⟨ev, hev, hnv⟩ := near_signed le_rfl (by norm_num) hVval hV hv
  obtain ⟨ekp, hekp, hnkp⟩ := near_gain (.inl rfl) le_rfl (by norm_num) hkp
  obtain ⟨ekd, hekd, hnkd⟩ := near_gain (.inr rfl) le_rfl (by norm_num) hkd
  refine ⟨⟨T, V, hT, hV⟩, ⟨et, ep, ev, ekp, ekd⟩, congrArg₂ MotorProfile.mk hTval hVval, ?_,
    hnt, hnp, hnv, hnkp, hnkd⟩
  have het' : Robstride.rsMathEncodeTorque torque.val profile.exact.torqueLimit = some et := het
  have hev' : Robstride.rsMathEncodeVelocity vel.val profile.exact.velocityLimit = some ev := hev
  have hekp' : Robstride.rsMathEncodeKp kp.val = some ekp := hekp
  have hekd' : Robstride.rsMathEncodeKd kd.val = some ekd := hekd
  simp [ProtocolPrivate.scaleMitControl, het', hep, hev', hekp', hekd']

theorem scaleMit_near {raw : ProtocolMIT.RawControl}
    (h : scaleMit torque pos vel kp kd profile = some raw) :
    ∃ (T : ℚ) (exact : _), profile.torqueLimit.val = fin T ∧
      ProtocolMIT.scaleMitControl torque.val pos.val vel.val kp.val kd.val profile.exact =
        some exact ∧ exact.Near T torque.val pos.val vel.val kp.val kd.val raw := by
  obtain ⟨p, v, kp', kd', t, hp, hv, hkp, hkd, ht, rfl⟩ := five_eq_some _ _ _ _ _ _ h
  rw [Binary32.rsMitMathEncodeVelocity, literal_span] at hv
  obtain ⟨T, hT, hTval⟩ := positive_of_encodes (by norm_num) ht
  obtain ⟨et, het, hnt⟩ := near_signed (by norm_num) (by norm_num) hTval hT ht
  obtain ⟨ep, hep, hnp⟩ := near_angle hp
  obtain ⟨ev, hev, hnv⟩ :=
    near_signed (by norm_num) (by norm_num) literal_thirtyThree (by norm_num) hv
  obtain ⟨ekp, hekp, hnkp⟩ := near_gain (.inl rfl) (by norm_num) (by norm_num) hkp
  obtain ⟨ekd, hekd, hnkd⟩ := near_gain (.inr rfl) (by norm_num) (by norm_num) hkd
  refine ⟨T, ⟨ep, ev, ekp, ekd, et⟩, hTval, ?_, hnp, hnv, hnkp, hnkd, hnt⟩
  have hep' : Robstride.rsMitMathEncodeAngle pos.val = some ep := hep
  have hev' : Robstride.rsMitMathEncodeVelocity vel.val = some ev := by
    rw [literal_thirtyThree, mul_fin, ← twice_thirtyThree] at hev
    exact hev
  have hekp' : Robstride.rsMitMathEncodeKp kp.val = some ekp := hekp
  have hekd' : Robstride.rsMitMathEncodeKd kd.val = some ekd := hekd
  have het' : Robstride.rsMitMathEncodeTorque torque.val profile.exact.torqueLimit = some et := het
  simp [ProtocolMIT.scaleMitControl, hep', hev', hekp', hekd', het']

/-- Where the limits leave room for the products, there are raw values exactly when exact
arithmetic has some. -/
theorem scalePrivate_isSome (hT : ∀ T : ℚ, profile.torqueLimit.val = fin T → T < 2 ^ 111)
    (hV : ∀ V : ℚ, profile.velocityLimit.val = fin V → V < 2 ^ 111) :
    (scalePrivate torque pos vel kp kd profile).isSome ↔
      (ProtocolPrivate.scaleMitControl torque.val pos.val vel.val kp.val kd.val
        profile.exact).isSome := by
  rw [ProtocolPrivate.scaleMitControl_isSome]
  refine (five_isSome _ _ _ _ _ _).trans ?_
  rw [Binary32.rsMathEncodeTorque, Binary32.rsMathEncodeVelocity, Binary32.rsMathEncodeKp,
    Binary32.rsMathEncodeKd, encodeSigned_isSome_iff le_rfl (by norm_num) hT,
    encodeAngle_isSome_iff, encodeSigned_isSome_iff le_rfl (by norm_num) hV,
    encodeGain_isSome_iff (.inl rfl) le_rfl (by norm_num),
    encodeGain_isSome_iff (.inr rfl) le_rfl (by norm_num)]
  simp only [NoNaN, Binary32.Profile.exact]
  tauto

theorem scaleMit_isSome (hT : ∀ T : ℚ, profile.torqueLimit.val = fin T → T < 2 ^ 111) :
    (scaleMit torque pos vel kp kd profile).isSome ↔
      (ProtocolMIT.scaleMitControl torque.val pos.val vel.val kp.val kd.val
        profile.exact).isSome := by
  have hvel : ∀ V : ℚ, (literal 33 : Binary32).val = fin V → V < 2 ^ 111 := by
    intro V hV
    rw [literal_thirtyThree] at hV
    cases hV
    norm_num
  rw [ProtocolMIT.scaleMitControl_isSome]
  refine (five_isSome _ _ _ _ _ _).trans ?_
  have hangle : Binary32.rsMitMathEncodeAngle pos = Binary32.rsMathEncodeAngle pos := rfl
  rw [hangle, Binary32.rsMitMathEncodeVelocity, literal_span, Binary32.rsMitMathEncodeTorque,
    Binary32.rsMitMathEncodeKp, Binary32.rsMitMathEncodeKd, encodeAngle_isSome_iff,
    encodeSigned_isSome_iff (by norm_num) (by norm_num) hvel,
    encodeGain_isSome_iff (.inl rfl) (by norm_num) (by norm_num),
    encodeGain_isSome_iff (.inr rfl) (by norm_num) (by norm_num),
    encodeSigned_isSome_iff (by norm_num) (by norm_num) hT, literal_thirtyThree, positive_fin]
  simp only [NoNaN, Binary32.Profile.exact]
  tauto

theorem ProtocolMIT.RawControl.Near.fits {T : ℚ} {x₁ x₂ x₃ x₄ x₅ : ExtRat}
    {exact raw : ProtocolMIT.RawControl} (h : exact.Near T x₁ x₂ x₃ x₄ x₅ raw) : raw.Fits :=
  ⟨h.velocity.atPlace.le, h.kp.atPlace.le, h.kd.atPlace.le, h.torque.atPlace.le⟩

end

/-- **Control frames in binary32**, for every `float` that a caller can pass and every profile.  A
frame carries the motor id and raw values that all fit in their fields; each of them is at the
place of its setpoint but for a 64th of a step, so at most one level off what exact arithmetic
gives.  There is a frame exactly when exact arithmetic has one, unless a limit is so large that a
product overflows. -/
theorem binary32_control_frames (motorId hostId : Byte) (torque pos vel kp kd : Binary32)
    (profile : Binary32.Profile) :
    (∀ frame, encodePrivate motorId hostId torque pos vel kp kd profile = some frame →
      ∃ (l : Limits) (exact raw : _), profile.exact = l.profile ∧
        ProtocolPrivate.scaleMitControl torque.val pos.val vel.val kp.val kd.val profile.exact =
          some exact ∧
        ProtocolPrivate.readMitControl frame = raw ∧ frame.canId.setWidth 8 = motorId ∧
        exact.Near l torque.val pos.val vel.val kp.val kd.val raw) ∧
    (∀ frame, encodeMit motorId hostId torque pos vel kp kd profile = some frame →
      ∃ (T : ℚ) (exact raw : _), profile.torqueLimit.val = fin T ∧
        ProtocolMIT.scaleMitControl torque.val pos.val vel.val kp.val kd.val profile.exact =
          some exact ∧
        ProtocolMIT.readMitControl frame.data = raw ∧ frame.canId.setWidth 8 = motorId ∧
        exact.Near T torque.val pos.val vel.val kp.val kd.val raw) ∧
    ((∀ T : ℚ, profile.torqueLimit.val = fin T → T < 2 ^ 111) →
      ((encodeMit motorId hostId torque pos vel kp kd profile).isSome ↔
        (ProtocolMIT.encodeMitControl motorId hostId torque.val pos.val vel.val kp.val kd.val
          profile.exact).isSome) ∧
      ((∀ V : ℚ, profile.velocityLimit.val = fin V → V < 2 ^ 111) →
        ((encodePrivate motorId hostId torque pos vel kp kd profile).isSome ↔
          (ProtocolPrivate.encodeMitControl motorId hostId torque.val pos.val vel.val kp.val kd.val
            profile.exact).isSome))) := by
  refine ⟨fun frame h => ?_, fun frame h => ?_, fun hT => ⟨?_, fun hV => ?_⟩⟩
  · obtain ⟨raw, hraw, rfl⟩ := Option.map_eq_some_iff.mp h
    obtain ⟨l, exact, hl, hexact, hnear⟩ := scalePrivate_near hraw
    exact ⟨l, exact, raw, hl, hexact, ProtocolPrivate.readMitControl_pack motorId raw,
      ProtocolPrivate.motorId_pack .control motorId raw.torque, hnear⟩
  · obtain ⟨raw, hraw, rfl⟩ := Option.map_eq_some_iff.mp h
    obtain ⟨T, exact, hT, hexact, hnear⟩ := scaleMit_near hraw
    have hid : (motorId.setWidth 32).setWidth 8 = motorId := by
      rw [BitVec.setWidth_setWidth_of_le motorId (show 8 ≤ 32 by norm_num), BitVec.setWidth_eq]
    exact ⟨T, exact, raw, hT, hexact, ProtocolMIT.readMitControl_pack motorId hnear.fits, hid,
      hnear⟩
  · rw [encodeMit, ProtocolMIT.encodeMitControl, Option.isSome_map, Option.isSome_map]
    exact scaleMit_isSome hT
  · rw [encodePrivate, ProtocolPrivate.encodeMitControl, Option.isSome_map, Option.isSome_map]
    exact scalePrivate_isSome hT hV

end Robstride
