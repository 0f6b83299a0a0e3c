import Robstride.Motor.System
import Robstride.Protocol.Setpoints

/-!
# Motor — Control

`send_mit_control` scales its five setpoints without looking at them.  It should refuse what it
cannot scale with `ERR_INVALID_ARGUMENT` and evaluate nothing without a defined value
(`SendsDefined`).  It never returns that error, and does what it should exactly when no setpoint
is NaN and the limits it reads are positive rationals (`sends_defined_iff`).
-/

namespace Robstride

open Support (ExtRat Prog)
open Support.ExtRat Support.Prog

/-! ### The frame -/

section

variable (m : Motor) (torque pos vel kp kd : ExtRat)

/-- The frame carries the scaled setpoints, each raw field the truncation of a number in its
range. -/
def Motor.FrameTruncates (frame : CanFrame) : Prop :=
  match m.protocolType with
  | .priv => ∃ raw, ProtocolPrivate.scaleMitControl torque pos vel kp kd m.profile = some raw ∧
      raw.Truncates ∧ frame = ProtocolPrivate.packMitControl m.motorId raw
  | .mit => ∃ raw, ProtocolMIT.scaleMitControl torque pos vel kp kd m.profile = some raw ∧
      raw.Truncates ∧ frame = ProtocolMIT.packMitControl m.motorId raw

/-- No setpoint is NaN, and the limits that the protocol reads are positive rationals. -/
def Motor.CanScale : Prop :=
  NoNaN torque pos vel kp kd ∧ Positive m.profile.torqueLimit ∧
    (m.protocolType = .priv → Positive m.profile.velocityLimit)

/-- The frame of `send_mit_control`, `none` where encoding it evaluates an expression without a
defined value. -/
def Motor.mitFrame : Option CanFrame :=
  m.protocol.encodeMitControl m.motorId m.hostId torque pos vel kp kd m.profile

theorem mitFrame_isSome :
    (m.mitFrame torque pos vel kp kd).isSome ↔ m.CanScale torque pos vel kp kd := by
  unfold Motor.mitFrame Motor.protocol Motor.CanScale
  cases hp : m.protocolType with
  | priv =>
      change ((ProtocolPrivate.scaleMitControl torque pos vel kp kd m.profile).map _).isSome ↔ _
      rw [Option.isSome_map, ProtocolPrivate.scaleMitControl_isSome]
      simp only [true_imp_iff]
  | mit =>
      change ((ProtocolMIT.scaleMitControl torque pos vel kp kd m.profile).map _).isSome ↔ _
      rw [Option.isSome_map, ProtocolMIT.scaleMitControl_isSome]
      simp only [reduceCtorEq, false_imp_iff, and_true]

variable {m torque pos vel kp kd}

theorem mitFrame_truncates {frame : CanFrame} (h : m.mitFrame torque pos vel kp kd = some frame) :
    m.FrameTruncates torque pos vel kp kd frame := by
  unfold Motor.mitFrame Motor.protocol at h
  unfold Motor.FrameTruncates
  cases hp : m.protocolType with
  | priv =>
      rw [hp] at h
      obtain ⟨raw, hraw, rfl⟩ := Option.map_eq_some_iff.mp h
      exact ⟨raw, hraw, ProtocolPrivate.scaleMitControl_truncates hraw, rfl⟩
  | mit =>
      rw [hp] at h
      obtain ⟨raw, hraw, rfl⟩ := Option.map_eq_some_iff.mp h
      exact ⟨raw, hraw, ProtocolMIT.scaleMitControl_truncates hraw, rfl⟩

end

/-! ### The function -/

/-- The function was refused before it came to the setpoints. -/
def Result.Refused (r : Result) : Prop := r = .errNotConnected ∨ r = .errOverrun

/-- `send_mit_control` evaluates nothing without a defined value, transmits only frames whose
raw fields are truncations in range, and, when it is not refused, returns `ERR_INVALID_ARGUMENT`
and transmits nothing or transmits such a frame. -/
structure SendsDefined (m : Motor) (torque pos vel kp kd : ExtRat) : Prop where
  defined : ∀ tr k, ¬ After (m.sendMitControl torque pos vel kp kd) tr (.act .undefined k)
  frames : ∀ tr frame k, After (m.sendMitControl torque pos vel kp kd) tr
      (.act (.transmit .sendMitControl frame) k) → m.FrameTruncates torque pos vel kp kd frame
  outcome : ∀ tr r, After (m.sendMitControl torque pos vel kp kd) tr (.ret r) → r.Refused ∨
    (r = .errInvalidArgument ∧ ∀ frame r', ⟨.transmit .sendMitControl frame, r'⟩ ∉ tr) ∨
      ∃ frame r', ⟨.transmit .sendMitControl frame, r'⟩ ∈ tr

section

variable {m : Motor} {torque pos vel kp kd : ExtRat}

/-- What follows the guards of a control command. -/
def Motor.sendFrame (fn : Fn) : Option CanFrame → Cmd Result
  | none => undefined
  | some frame => transmit fn frame

theorem send_eq (m : Motor) (fn : Fn) (frame : Option CanFrame) :
    m.send fn frame = recorded fn (isConnected >>= fun connected =>
      if connected then m.checkOverrun >>= fun passed =>
        if passed then Motor.sendFrame fn frame else pure .errOverrun
      else pure .errNotConnected) := by
  cases frame <;> rfl

theorem checkOverrun_passes (m : Motor) :
    After m.checkOverrun [⟨.fetchAdd, m.overrunLimit⟩] (ret true) := by
  have hpass : ¬ m.overrunLimit.slt m.overrunLimit = true := by simp [BitVec.slt_eq_decide]
  refine .cons ?_
  change After (if m.overrunLimit.slt m.overrunLimit = true then _ else ret true) [] (ret true)
  rw [if_neg hpass]
  exact .nil _

/-- A command that is connected and within its limit comes to its frame. -/
theorem send_reaches (m : Motor) (fn : Fn) (frame : Option CanFrame) :
    After (m.send fn frame)
      (⟨.enter fn, ()⟩ :: ⟨.isConnected, true⟩ :: ([⟨.fetchAdd, m.overrunLimit⟩] ++ []))
      (Motor.sendFrame fn frame >>= fun r => leave fn (.result r) >>= fun _ => pure r) := by
  rw [send_eq]
  refine .cons (.cons ?_)
  change After ((m.checkOverrun >>= fun passed =>
    if passed then Motor.sendFrame fn frame else pure .errOverrun) >>= _) _ _
  rw [bind_assoc]
  exact (checkOverrun_passes m).bind (.nil _)

/-- A setpoint or limit that cannot be scaled is evaluated all the same. -/
theorem not_defined_of_none (h : m.mitFrame torque pos vel kp kd = none) :
    ¬ SendsDefined m torque pos vel kp kd := by
  intro hsends
  have heq : m.sendMitControl torque pos vel kp kd = m.send .sendMitControl none := by
    rw [← h]
    rfl
  exact hsends.defined _ _ (heq ▸ send_reaches m .sendMitControl none)

/-! ### Every trace -/

/-- An action that a control command with this frame may perform. -/
def MayPerform (frame : CanFrame) (a : Action) : Prop :=
  a ≠ .undefined ∧ ∀ frame', a = .transmit .sendMitControl frame' → frame' = frame

section

variable {frame : CanFrame}

theorem all_recorded {fn : Fn} {body : Cmd Result} (h : body.All (MayPerform frame)) :
    (recorded fn body).All (MayPerform frame) :=
  .bind (.perform ⟨nofun, nofun⟩) fun _ => .bind h fun _ => .bind (.perform ⟨nofun, nofun⟩)
    fun _ => trivial

theorem all_isConnected : isConnected.All (MayPerform frame) := .perform ⟨nofun, nofun⟩

theorem all_prepareWait (fn : Fn) (expected : FrameType) :
    (prepareWait fn expected).All (MayPerform frame) :=
  .bind (.perform ⟨nofun, nofun⟩) fun _ => .bind (.perform ⟨nofun, nofun⟩) fun _ =>
    .perform ⟨nofun, nofun⟩

theorem all_waitForResponse (timeoutMs : ℕ) :
    (waitForResponse timeoutMs).All (MayPerform frame) := by
  refine .bind (.perform ⟨nofun, nofun⟩) fun _ => .bind (.perform ⟨nofun, nofun⟩) fun ready =>
    .bind ?_ fun _ => .bind (.perform ⟨nofun, nofun⟩) fun _ => trivial
  cases ready with
  | true => trivial
  | false => exact .perform ⟨nofun, nofun⟩

/-- The stop that `check_overrun` sends is no control command. -/
theorem all_stop (m : Motor) : m.stop.All (MayPerform frame) := by
  refine all_recorded (.bind (.perform ⟨nofun, nofun⟩) fun _ => .bind ?_ fun _ =>
    .bind (.perform ⟨nofun, nofun⟩) fun _ => trivial)
  refine .bind all_isConnected fun connected => ?_
  split_ifs
  · refine .bind (all_prepareWait _ _) fun _ => .bind (.perform ⟨nofun, nofun⟩) fun sent => ?_
    split_ifs
    · exact all_waitForResponse 50
    · trivial
  · trivial

theorem all_checkOverrun (m : Motor) : m.checkOverrun.All (MayPerform frame) := by
  refine .bind (.perform ⟨nofun, nofun⟩) fun pending => ?_
  split_ifs
  · exact .bind (.perform ⟨nofun, nofun⟩) fun _ => .bind (all_stop m) fun _ => trivial
  · trivial

theorem all_send (m : Motor) : (m.send .sendMitControl (some frame)).All (MayPerform frame) := by
  rw [send_eq]
  refine all_recorded (.bind all_isConnected fun connected => ?_)
  split_ifs
  · refine .bind (all_checkOverrun m) fun passed => ?_
    split_ifs
    · exact .perform ⟨nofun, fun _ heq => (Action.transmit.inj heq).2.symm⟩
    · trivial
  · trivial

/-- A control command that returns was refused or transmitted its frame. -/
theorem send_outcome {m : Motor} {fn : Fn} {tr : Trace Action Action.Res} {r : Result}
    (h : After (m.send fn (some frame)) tr (.ret r)) :
    r.Refused ∨ ∃ r', ⟨.transmit fn frame, r'⟩ ∈ tr := by
  rw [send_eq] at h
  obtain ⟨tr₁, -, tr₂, rfl, -, h⟩ := after_bind_ret h
  obtain ⟨tr₃, x, tr₄, rfl, hbody, h⟩ := after_bind_ret h
  obtain ⟨tr₅, -, tr₆, rfl, -, h⟩ := after_bind_ret h
  obtain ⟨-, rfl⟩ := after_ret h
  obtain ⟨tr₇, connected, tr₈, rfl, -, h⟩ := after_bind_ret hbody
  cases connected with
  | false =>
      obtain ⟨-, rfl⟩ := after_ret h
      exact .inl (.inl rfl)
  | true =>
      obtain ⟨tr₉, passed, tr₁₀, rfl, -, h⟩ := after_bind_ret h
      cases passed with
      | false =>
          obtain ⟨-, rfl⟩ := after_ret h
          exact .inl (.inr rfl)
      | true =>
          obtain rfl := after_perform h
          exact .inr ⟨x, by simp⟩

end

end

/-- **`send_mit_control` does what it should** exactly when no setpoint is NaN and the limits it
reads are positive rationals. -/
theorem sends_defined_iff (m : Motor) (torque pos vel kp kd : ExtRat) :
    SendsDefined m torque pos vel kp kd ↔ m.CanScale torque pos vel kp kd := by
  rw [← mitFrame_isSome]
  constructor
  · intro hsends
    by_contra hnone
    exact not_defined_of_none (Option.not_isSome_iff_eq_none.mp hnone) hsends
  · intro hsome
    obtain ⟨frame, hframe⟩ := Option.isSome_iff_exists.mp hsome
    have heq : m.sendMitControl torque pos vel kp kd = m.send .sendMitControl (some frame) := by
      rw [← hframe]
      rfl
    refine ⟨fun tr k h => ?_, fun tr frame' k h => ?_, fun tr r h => ?_⟩
    · rw [heq] at h
      exact ((all_send m).after h).1.1 rfl
    · rw [heq] at h
      obtain rfl := ((all_send m).after h).1.2 frame' rfl
      exact mitFrame_truncates hframe
    · rw [heq] at h
      exact (send_outcome h).imp_right fun ⟨r', hr'⟩ => .inr ⟨frame, r', hr'⟩

/-- **A NaN setpoint** reaches the conversion to an integer. -/
theorem nan_reaches_conversion : ¬ ∀ (m : Motor) (torque pos vel kp kd : ExtRat),
    SendsDefined m torque pos vel kp kd := by
  intro hall
  have hnone : (Motor.sample .priv).mitFrame nan (fin 0) (fin 0) (fin 0) (fin 0) = none := by
    have hno : ¬ ((Motor.sample .priv).mitFrame nan (fin 0) (fin 0) (fin 0) (fin 0)).isSome := by
      rw [mitFrame_isSome]
      exact fun h => h.1.1 rfl
    exact Option.not_isSome_iff_eq_none.mp hno
  exact not_defined_of_none hnone (hall _ _ _ _ _ _)

end Robstride
