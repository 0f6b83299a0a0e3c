import Robstride.Motor.Frames

/-!
# Motor — Frames that nothing parses

`unknown_frame_count` counts the frames that the filter of the protocol passes and its parser
refuses.  The filter is the narrower of the two: the private one refuses every type that the parser
refuses, and the MIT one every frame of fewer than eight bytes.  Such a frame may carry the motor's
id, and is not counted (`Motor.Missed`).  The count is that of the motor's unparsed frames exactly
where there is none (`unknown_frames_counted_iff`).
-/

namespace Robstride

open Support

variable {m : Motor} {frame : CanFrame}

/-! ### Frames for the motor -/

/-- The frame carries the motor's id where its protocol has it. -/
def Protocol.Addressed : Protocol → CanFrame → Byte → Prop
  | .priv => ProtocolPrivate.Addressed
  | .mit => ProtocolMIT.Addressed

instance : (p : Protocol) → (motorId : Byte) → Decidable (p.Addressed frame motorId)
  | .priv, motorId => inferInstanceAs (Decidable (ProtocolPrivate.Addressed frame motorId))
  | .mit, motorId => inferInstanceAs (Decidable (ProtocolMIT.Addressed frame motorId))

namespace Motor

/-- The frame is addressed to the motor. -/
def Addressed (m : Motor) (frame : CanFrame) : Prop := m.protocolType.Addressed frame m.motorId

instance : Decidable (m.Addressed frame) :=
  inferInstanceAs (Decidable (m.protocolType.Addressed frame m.motorId))

/-- The filter passes the frame, and `parse_feedback` returns `true` for it. -/
def Parses (m : Motor) (frame : CanFrame) : Prop :=
  m.protocol.isFeedbackFrame frame m.motorId = true ∧
    (m.protocol.parseFeedback frame (.initial m.motorId) m.profile).isSome = true

instance : Decidable (m.Parses frame) := inferInstanceAs (Decidable (_ ∧ _))

/-- The frame is for the motor, and the filter refuses it. -/
def Missed (m : Motor) (frame : CanFrame) : Prop :=
  match m.protocolType with
  | .priv => ProtocolPrivate.Addressed frame m.motorId ∧ ProtocolPrivate.Unsupported frame
  | .mit => frame.canId &&& canEffFlag = 0 ∧ ProtocolMIT.rxId frame = m.motorId ∧ frame.canDlc < 8

end Motor

/-- The count is that of the motor's frames that were not parsed, and no other frame changes it. -/
structure CountsUnknown (m : Motor) (frames : List CanFrame) : Prop where
  count : (m.after frames).vars.status.unknownFrameCount.toNat =
    frames.countP fun frame => m.Addressed frame ∧ ¬ m.Parses frame
  foreign : ∀ (s : m.OwnVars) (frame : CanFrame), ¬ m.Addressed frame →
    (s.process frame).vars.status.unknownFrameCount = s.vars.status.unknownFrameCount

/-! ### What the filters miss -/

/-- The filter passes the motor's frames but those it misses. -/
theorem passed_iff : m.protocol.isFeedbackFrame frame m.motorId = true ↔
    m.Addressed frame ∧ ¬ m.Missed frame := by
  unfold Motor.Addressed Motor.Missed Motor.protocol
  cases m.protocolType with
  | priv =>
      refine ProtocolPrivate.isFeedbackFrame_iff_addressed.trans (and_congr_right fun h => ?_)
      simp only [h, true_and]
  | mit =>
      refine ProtocolMIT.isFeedbackFrame_iff.trans (and_congr_right fun h => ?_)
      -- A short frame can only be addressed through its id.
      refine not_congr ⟨fun hdlc => ⟨h.1, ?_, hdlc⟩, fun hmissed => hmissed.2.2⟩
      exact h.2.resolve_right fun hfirst => hfirst.2.2 hdlc

theorem Motor.Missed.addressed (h : m.Missed frame) : m.Addressed frame := by
  unfold Motor.Missed at h
  unfold Motor.Addressed
  cases hp : m.protocolType with
  | priv =>
      rw [hp] at h
      exact h.1
  | mit =>
      rw [hp] at h
      exact ⟨h.1, Or.inl h.2.1⟩

/-! ### The count -/

theorem parses_iff : m.Parses frame ↔ (m.reading frame).isSome = true := by
  constructor
  · rintro ⟨hacc, hsome⟩
    rw [parseFeedback_of_own hacc rfl, Option.isSome_map] at hsome
    exact hsome
  · intro hsome
    obtain ⟨r, hr⟩ := Option.isSome_iff_exists.mp hsome
    have hacc := accepted_of_reading hr
    refine ⟨hacc, ?_⟩
    rw [parseFeedback_of_own hacc rfl, Option.isSome_map]
    exact hsome

/-- The frames counted are those of the motor that are neither parsed nor missed. -/
theorem refused_iff : m.intake frame = .refused ↔
    m.Addressed frame ∧ ¬ m.Parses frame ∧ ¬ m.Missed frame := by
  rw [intake_eq_refused, passed_iff, parses_iff, Option.not_isSome_iff_eq_none, and_assoc,
    and_comm (a := ¬ m.Missed frame)]

/-- A missed frame is not parsed. -/
theorem Motor.Missed.not_parses (h : m.Missed frame) : ¬ m.Parses frame := by
  intro hparses
  exact (passed_iff.mp hparses.1).2 h

/-- A frame for another motor changes no count. -/
theorem count_of_foreign (s : m.OwnVars) (h : ¬ m.Addressed frame) :
    (s.process frame).vars.status.unknownFrameCount = s.vars.status.unknownFrameCount := by
  have hcounts : m.unknownFrames.counts frame = false :=
    decide_eq_false fun hrefused => h (refused_iff.mp hrefused).1
  exact (m.unknownFrames.get_step s frame).trans (by rw [hcounts]; rfl)

/-- **The unknown frames are counted** exactly where the filter misses none of the motor's frames,
and the number of those not parsed fits the `uint32_t`. -/
theorem unknown_frames_counted_iff (m : Motor) (frames : List CanFrame) :
    CountsUnknown m frames ↔ (∀ frame ∈ frames, ¬ m.Missed frame) ∧
      (frames.countP fun frame => m.Addressed frame ∧ ¬ m.Parses frame) < 2 ^ 32 := by
  have hsome : ∀ frame, m.unknownFrames.counts frame = true →
      decide (m.Addressed frame ∧ ¬ m.Parses frame) = true := by
    intro frame hcounts
    have hrefused := refused_iff.mp (of_decide_eq_true hcounts)
    exact decide_eq_true ⟨hrefused.1, hrefused.2.1⟩
  have hall : ∀ frame, ¬ m.Missed frame ↔
      (decide (m.Addressed frame ∧ ¬ m.Parses frame) = true →
        m.unknownFrames.counts frame = true) := by
    intro frame
    constructor
    · intro hmissed hunparsed
      obtain ⟨haddressed, hparses⟩ := of_decide_eq_true hunparsed
      exact decide_eq_true (refused_iff.mpr ⟨haddressed, hparses, hmissed⟩)
    · intro himp hmissed
      have hcounts := himp (decide_eq_true ⟨hmissed.addressed, hmissed.not_parses⟩)
      exact (refused_iff.mp (of_decide_eq_true hcounts)).2.2 hmissed
  have hcount := m.unknownFrames.toNat_get_run_iff (s := .initial m) rfl hsome frames
  simp only [← hall] at hcount
  exact ⟨fun h => hcount.mp h.count, fun h => ⟨hcount.mpr h, fun s _ => count_of_foreign s⟩⟩

/-- A private frame of type 18 with the motor's id, and an MIT parameter reply of four bytes. -/
theorem unknown_frames_not_counted :
    ¬ CountsUnknown (.sample .priv) [⟨0x92000100, 8, zeroPayload⟩] ∧
      ¬ CountsUnknown (.mitSample 1) [⟨0x301, 4, zeroPayload⟩] := by
  refine ⟨fun h => ?_, fun h => ?_⟩
  · exact absurd h.count (by decide)
  · exact absurd h.count (by decide)

end Robstride
