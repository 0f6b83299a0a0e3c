import Robstride.Motor.Snapshot
import Robstride.Protocol.Roundtrip

/-!
# Motor — Telemetry

What a status shows that `get_status` returned.  Every field but the flag is that of the frames
before it, processed one by one with no other thread running (`status_of_updates`), so it holds what
the last frame of its branch brought; the flag says whether a frame was decoded since the last
`disconnect` (`snapshot_fields`).  Computed exactly, without the rounding and the overflow
of binary32, and where the motor's profile has positive limits, its numbers are in the range that
the profile and the protocol's constants give (`snapshot_in_range`).
-/

namespace Robstride

open Support Support.Pool Support.ExtRat

/-! ### Fields -/

/-- The frame of an update, if it is one. -/
def Update.frame? : Update → Option CanFrame
  | .frame f => some f
  | .prepare _ => none
  | .disconnect => none

/-- A frame was decoded since the last `disconnect`. -/
def Motor.HeardSince (m : Motor) (updates : List Update) : Prop :=
  ∃ before f since, updates = before ++ .frame f :: since ∧ (m.reading f).isSome = true ∧
    .disconnect ∉ since

/-- The status with this flag. -/
def MotorStatus.setConnected (status : MotorStatus) (connected : Bool) : MotorStatus :=
  { status with isConnected := connected }

/-- The status is what the updates leave. -/
structure SnapshotAfter (m : Motor) (updates : List Update) (status : MotorStatus) : Prop where
  isConnected : status.isConnected = true ↔ m.HeardSince updates
  fields : ∃ connected,
    StatusAfter m (updates.filterMap Update.frame?) (status.setConnected connected)

/-- What a frame makes of a status. -/
def Motor.statusAfterFrame (m : Motor) (frame : CanFrame) (status : MotorStatus) : MotorStatus :=
  match m.reading frame with
  | some r => (r.apply status).setConnected true
  | none =>
      if m.protocol.isFeedbackFrame frame m.motorId then
        { status with unknownFrameCount := status.unknownFrameCount + 1 }
      else status

section Fields

variable {m : Motor} {updates : List Update}

@[simp] theorem setConnected_setConnected (status : MotorStatus) (b b' : Bool) :
    (status.setConnected b).setConnected b' = status.setConnected b' := rfl

@[simp] theorem setConnected_self (status : MotorStatus) :
    status.setConnected status.isConnected = status := rfl

@[simp] theorem setConnected_isConnected (status : MotorStatus) (b : Bool) :
    (status.setConnected b).isConnected = b := rfl

theorem guardedAfter_snoc (updates : List Update) (u : Update) :
    m.guardedAfter (updates ++ [u]) = m.update (m.guardedAfter updates) u := by
  simp [Motor.guardedAfter]

theorem after_snoc (frames : List CanFrame) (frame : CanFrame) :
    m.after (frames ++ [frame]) = (m.after frames).process frame := by
  simp [Motor.after]

theorem processGuarded_status {frame : CanFrame} {g : Guarded}
    (hown : g.status.motorId = m.motorId) :
    (m.processGuarded frame g).status = m.statusAfterFrame frame g.status :=
  processFrameAlone_status (v := ⟨g.status, g.expectedResponseType, g.responseReceived, 0⟩) hown

theorem process_statusAfterFrame (s : m.OwnVars) (frame : CanFrame) :
    (s.process frame).vars.status = m.statusAfterFrame frame s.vars.status :=
  processFrameAlone_status s.own

/-- A frame overwrites the flag or leaves it, and reads it for no other field. -/
theorem statusAfterFrame_setConnected (frame : CanFrame) (status : MotorStatus) (b : Bool) :
    m.statusAfterFrame frame (status.setConnected b) =
      (m.statusAfterFrame frame status).setConnected ((m.reading frame).isSome || b) := by
  unfold Motor.statusAfterFrame
  cases m.reading frame with
  | some r => cases r <;> rfl
  | none =>
      by_cases hacc : m.protocol.isFeedbackFrame frame m.motorId = true
      · simp only [if_pos hacc]
        rfl
      · simp only [if_neg hacc]
        rfl

/-- **The updates leave** the status that their frames leave, but for the flag. -/
theorem status_of_updates (m : Motor) (updates : List Update) :
    (m.guardedAfter updates).status =
      (m.after (updates.filterMap Update.frame?)).vars.status.setConnected
        (m.guardedAfter updates).status.isConnected := by
  induction updates using List.reverseRecOn with
  | nil => rfl
  | append_singleton updates u ih =>
      rw [guardedAfter_snoc, List.filterMap_append]
      cases u with
      | prepare expectedType =>
          have hnone : [Update.prepare expectedType].filterMap Update.frame? = [] := rfl
          rw [hnone, List.append_nil]
          exact ih
      | disconnect =>
          have hnone : [Update.disconnect].filterMap Update.frame? = [] := rfl
          rw [hnone, List.append_nil]
          exact congrArg (fun status => status.setConnected false) ih
      | frame f =>
          have hown : (m.guardedAfter updates).status.motorId = m.motorId := by
            rw [ih]
            exact (m.after _).own
          have hframe : [Update.frame f].filterMap Update.frame? = [f] := rfl
          have hstep : (m.update (m.guardedAfter updates) (.frame f)).status =
              m.statusAfterFrame f (m.guardedAfter updates).status := processGuarded_status hown
          rw [hframe, after_snoc, process_statusAfterFrame, hstep, ih,
            statusAfterFrame_setConnected]
          simp

/-- The flag after one more update. -/
theorem connected_snoc (updates : List Update) (u : Update) :
    (m.guardedAfter (updates ++ [u])).status.isConnected =
      match u with
      | .frame f => (m.reading f).isSome || (m.guardedAfter updates).status.isConnected
      | .prepare _ => (m.guardedAfter updates).status.isConnected
      | .disconnect => false := by
  rw [guardedAfter_snoc]
  cases u with
  | prepare expectedType => rfl
  | disconnect => rfl
  | frame f =>
      have hown : (m.guardedAfter updates).status.motorId = m.motorId := by
        rw [status_of_updates]
        exact (m.after _).own
      have hstep : (m.update (m.guardedAfter updates) (.frame f)).status =
          m.statusAfterFrame f (m.guardedAfter updates).status := processGuarded_status hown
      rw [hstep, ← setConnected_self (m.guardedAfter updates).status,
        statusAfterFrame_setConnected]
      rfl

theorem heardSince_snoc (updates : List Update) (u : Update) :
    m.HeardSince (updates ++ [u]) ↔
      match u with
      | .frame f => (m.reading f).isSome = true ∨ m.HeardSince updates
      | .prepare _ => m.HeardSince updates
      | .disconnect => False := by
  constructor
  · rintro ⟨before, f, since, heq, hreading, hsince⟩
    induction since using List.reverseRecOn with
    | nil =>
        obtain ⟨-, hu⟩ := List.append_inj' heq rfl
        obtain rfl := List.singleton_inj.mp hu
        exact Or.inl hreading
    | append_singleton since u' _ =>
        rw [← List.cons_append, ← List.append_assoc] at heq
        obtain ⟨hupdates, hu⟩ := List.append_inj' heq rfl
        obtain rfl := List.singleton_inj.mp hu
        have hheard : m.HeardSince updates :=
          ⟨before, f, since, hupdates, hreading, fun h => hsince (List.mem_append_left _ h)⟩
        cases u with
        | frame f' => exact Or.inr hheard
        | prepare expectedType => exact hheard
        | disconnect => exact hsince (List.mem_append_right _ (List.mem_singleton_self _))
  · intro h
    -- An earlier frame still counts, one more update later.
    have hlater : u ≠ .disconnect → m.HeardSince updates → m.HeardSince (updates ++ [u]) := by
      rintro hu ⟨before, f, since, rfl, hreading, hsince⟩
      refine ⟨before, f, since ++ [u], by simp, hreading, ?_⟩
      rw [List.mem_append, List.mem_singleton, not_or]
      exact ⟨hsince, hu.symm⟩
    cases u with
    | frame f =>
        rcases h with hreading | hheard
        · exact ⟨updates, f, [], rfl, hreading, List.not_mem_nil⟩
        · exact hlater nofun hheard
    | prepare expectedType => exact hlater nofun h
    | disconnect => exact h.elim

/-- The flag says whether the motor was heard. -/
theorem connected_iff (m : Motor) (updates : List Update) :
    (m.guardedAfter updates).status.isConnected = true ↔ m.HeardSince updates := by
  induction updates using List.reverseRecOn with
  | nil =>
      refine iff_of_false nofun ?_
      rintro ⟨before, f, since, hnil, -⟩
      cases before <;> cases hnil
  | append_singleton updates u ih =>
      rw [connected_snoc, heardSince_snoc]
      cases u with
      | prepare expectedType => exact ih
      | disconnect => exact iff_of_false nofun id
      | frame f => simp only [Bool.or_eq_true, ih]

/-- **Every status that `get_status` returns** is what the frames before it leave one by one, and
its flag says whether the motor was heard since the last `disconnect`. -/
theorem snapshot_fields {m : Motor} {ls : List (Label m.observed)} {c : Config m.observed}
    (h : Path Any m.observedInitial ls c) :
    ∀ before t status after, ls = before ++ .act t .copyStatus status :: after →
      SnapshotAfter m (m.updates before) status := by
  rintro before t status after rfl
  obtain rfl := copyStatus_eq h
  refine ⟨connected_iff m _,
    (m.after ((m.updates before).filterMap Update.frame?)).vars.status.isConnected, ?_⟩
  rw [status_of_updates, setConnected_setConnected, setConnected_self]
  exact after_status m _

end Fields

/-- The status that a step copied. -/
def Motor.copied? (m : Motor) : Label m.observed → Option MotorStatus
  | .act _ .copyStatus status => some status
  | _ => none

theorem eq_of_copied? {m : Motor} {l : Label m.observed} {status : MotorStatus}
    (h : m.copied? l = some status) : ∃ t, l = .act t .copyStatus status := by
  cases l with
  | act t a r =>
      cases a with
      | copyStatus =>
          obtain rfl := Option.some.inj h
          exact ⟨t, rfl⟩
      | own a => cases h
  | call t op => cases h
  | env e => cases h

/-- The status copied while a frame was under way. -/
theorem copied_aside : ∃ ls t status k,
    Path Any (Motor.sample .priv).observedInitial (ls ++ [.act t .copyStatus status]) k ∧
      status.isConnected = true := by
  have hlog : ((Motor.sample .priv).observedInitial.log Any readingAside.dropLast).map
      (fun p => p.1.getLast?.bind fun l => ((Motor.sample .priv).copied? l).map (·.isConnected)) =
        some (some true) := rfl
  obtain ⟨ls, l, k, hpath, hl⟩ := log_path_last hlog
  obtain ⟨status, hcopied, hconnected⟩ := Option.map_eq_some_iff.mp hl
  obtain ⟨t, rfl⟩ := eq_of_copied? hcopied
  exact ⟨ls, t, status, k, hpath, hconnected⟩

theorem snapshot_fields_aside : ∃ ls t status k,
    Path Any (Motor.sample .priv).observedInitial (ls ++ [.act t .copyStatus status]) k ∧
      status.isConnected = true ∧
        SnapshotAfter (Motor.sample .priv) ((Motor.sample .priv).updates ls) status := by
  obtain ⟨ls, t, status, k, hpath, hconnected⟩ := copied_aside
  exact ⟨ls, t, status, k, hpath, hconnected, snapshot_fields hpath ls t status [] rfl⟩

/-! ### Ranges -/

/-- What the parser decodes a channel to is at most this large. -/
def Protocol.feedbackLimit (l : Limits) : Protocol → Channel → ℚ
  | .priv => ProtocolPrivate.channelLimit l
  | .mit => ProtocolMIT.feedbackLimit l

/-- A quantity of the telemetry. -/
def Telemetry.channel (t : Telemetry) : Channel → ExtRat
  | .angle => t.angle
  | .velocity => t.velocity
  | .torque => t.torque

/-- The numbers are finite, and in the range of the decoders. -/
structure Telemetry.InScale (t : Telemetry) (p : Protocol) (l : Limits) : Prop where
  channel : ∀ c, ∃ x, t.channel c = fin x ∧ |x| ≤ p.feedbackLimit l c
  temperature : ∃ x, t.temperature = fin x ∧ 0 ≤ x ∧ x ≤ 6553.5

section Ranges

variable {l : Limits} {frame : CanFrame} {t : Telemetry} {errorMask : Option Byte}

theorem Protocol.feedbackLimit_pos (l : Limits) (p : Protocol) (c : Channel) :
    0 < p.feedbackLimit l c := by
  cases p with
  | priv => exact ProtocolPrivate.channelLimit_pos l c
  | mit =>
      cases c with
      | angle => norm_num [feedbackLimit, ProtocolMIT.feedbackLimit]
      | velocity => norm_num [feedbackLimit, ProtocolMIT.feedbackLimit]
      | torque => exact l.torque_pos

theorem abs_value_le {L : ℚ} {steps n : ℕ} (hL : 0 < L) (hsteps : 0 < steps) (hn : n ≤ steps) :
    |value (-L) L steps n| ≤ L := by
  have hlt : -L < L := neg_lt_self hL
  exact abs_le.mpr ⟨value_nonneg_add hlt n, value_le hlt hsteps hn⟩

theorem temperature_le (raw : BitVec 16) :
    ∃ x, fin raw.toNat * fin 0.1 = fin x ∧ 0 ≤ x ∧ x ≤ 6553.5 := by
  have hraw : (raw.toNat : ℚ) ≤ 65535 := by
    have hlt := raw.isLt
    exact_mod_cast Nat.le_of_lt_succ hlt
  refine ⟨_, mul_fin _ _, by positivity, ?_⟩
  linarith

/-- The high nibble of a 12-bit value is zero. -/
theorem rsUnpackMit12bitVel_le (b0 b1 : Byte) : (rsUnpackMit12bitVel b0 b1).toNat ≤ 4095 := by
  have hhigh : b0.toNat <<< 4 < 2 ^ 12 := by
    rw [Nat.shiftLeft_eq]
    have hb0 := b0.isLt
    omega
  have hlow : b1.toNat >>> 4 < 2 ^ 12 := by
    rw [Nat.shiftRight_eq_div_pow]
    have hb1 := b1.isLt
    omega
  have hor := Nat.or_lt_two_pow hhigh hlow
  have heq : (rsUnpackMit12bitVel b0 b1).toNat = b0.toNat <<< 4 ||| b1.toNat >>> 4 := by
    rw [rsUnpackMit12bitVel, BitVec.toNat_or, BitVec.toNat_shiftLeft, BitVec.toNat_setWidth,
      BitVec.toNat_setWidth, BitVec.toNat_ushiftRight, Nat.mod_eq_of_lt (a := b0.toNat),
      Nat.mod_eq_of_lt, Nat.mod_eq_of_lt]
    all_goals omega
  omega

theorem rsUnpackMit12bitTorque_le (b0 b1 : Byte) :
    (rsUnpackMit12bitTorque b0 b1).toNat ≤ 4095 := by
  have hhigh : (b0.toNat &&& 15) <<< 8 < 2 ^ 12 := by
    rw [Nat.shiftLeft_eq]
    have hand : b0.toNat &&& 15 ≤ 15 := Nat.and_le_right
    omega
  have hb0 := b0.isLt
  have hb1 := b1.isLt
  have hor := Nat.or_lt_two_pow hhigh (show b1.toNat < 2 ^ 12 by omega)
  have heq : (rsUnpackMit12bitTorque b0 b1).toNat = (b0.toNat &&& 15) <<< 8 ||| b1.toNat := by
    rw [rsUnpackMit12bitTorque, BitVec.toNat_or, BitVec.toNat_shiftLeft, BitVec.toNat_and,
      BitVec.toNat_setWidth, BitVec.toNat_setWidth, Nat.mod_eq_of_lt (a := b0.toNat) (by omega),
      Nat.mod_eq_of_lt (a := b1.toNat) (by omega)]
    exact congrArg (· ||| b1.toNat) (Nat.mod_eq_of_lt (hhigh.trans (by norm_num)))
  omega

/-- A private motor decodes every channel into its limits. -/
theorem ProtocolPrivate.telemetry_inScale
    (h : ProtocolPrivate.reading frame l.profile = some (.telemetry t errorMask)) :
    t.InScale .priv l := by
  have hchannel : ∀ c raw, ∃ x, decodeChannel l c raw = fin x ∧ |x| ≤ channelLimit l c := by
    intro c raw
    rw [decodeChannel_eq]
    exact ⟨_, rfl, abs_value_le (Protocol.feedbackLimit_pos l .priv c) (by norm_num)
      (Nat.le_of_lt_succ raw.isLt)⟩
  simp only [ProtocolPrivate.reading] at h
  cases htype : FrameType.ofByte (rsGetMsgType (frame.canId &&& canEffMask)) with
  | feedback =>
      simp only [htype] at h
      cases h
      constructor
      · intro c
        cases c with
        | angle => exact hchannel .angle _
        | velocity => exact hchannel .velocity _
        | torque => exact hchannel .torque _
      · exact temperature_le _
  | _ =>
      simp only [htype] at h
      cases h

/-- So does an MIT motor, whose short channels have 12 bits. -/
theorem ProtocolMIT.telemetry_inScale {motorId : Byte}
    (h : ProtocolMIT.reading frame motorId l.profile = some (.telemetry t errorMask)) :
    t.InScale .mit l := by
  have hchannel : ∀ c raw, raw.toNat ≤ channelSteps c →
      ∃ x, decodeChannel l c raw = fin x ∧ |x| ≤ feedbackLimit l c := by
    intro c raw hraw
    rw [decodeChannel_eq]
    exact ⟨_, rfl, abs_value_le (Protocol.feedbackLimit_pos l .mit c) (channelSteps_pos c) hraw⟩
  simp only [ProtocolMIT.reading] at h
  by_cases htelemetry : mode frame = 0 ∧ frame.data.byte 0 = motorId
  · rw [if_pos htelemetry] at h
    obtain ⟨rfl, -⟩ := Reading.telemetry.inj (Option.some.inj h)
    constructor
    · intro c
      cases c with
      | angle => exact hchannel .angle _ (Nat.le_of_lt_succ (BitVec.isLt _))
      | velocity => exact hchannel .velocity _ (rsUnpackMit12bitVel_le _ _)
      | torque => exact hchannel .torque _ (rsUnpackMit12bitTorque_le _ _)
    · exact temperature_le _
  · -- The other branches decode no telemetry.
    rw [if_neg htelemetry] at h
    split_ifs at h
    · cases h
    · cases h

/-- The last value is the first one, or some frame's. -/
theorem last_eq {V : Type} (m : Motor) (field : Reading → Option V) (frames : List CanFrame)
    (first : V) : m.last field frames first = first ∨
      ∃ frame, (m.reading frame).bind field = some (m.last field frames first) := by
  unfold Motor.last
  cases hlast : (frames.filterMap fun frame => (m.reading frame).bind field).getLast? with
  | none => exact Or.inl rfl
  | some v =>
      obtain ⟨frame, -, hframe⟩ := List.mem_filterMap.mp (List.mem_of_getLast? hlast)
      exact Or.inr ⟨frame, hframe⟩

theorem initial_inScale (motorId : Byte) (p : Protocol) (l : Limits) :
    (MotorStatus.initial motorId).telemetry.InScale p l := by
  constructor
  · intro c
    have hzero : (MotorStatus.initial motorId).telemetry.channel c = fin 0 := by
      cases c <;> rfl
    refine ⟨0, hzero, ?_⟩
    rw [abs_zero]
    exact (p.feedbackLimit_pos l c).le
  · exact ⟨0, rfl, le_refl 0, by norm_num⟩

/-- What a motor decodes is in scale. -/
theorem telemetry_inScale {m : Motor} (hprofile : m.profile = l.profile)
    (h : m.reading frame = some (.telemetry t errorMask)) : t.InScale m.protocolType l := by
  unfold Motor.reading at h
  rw [if_pos (accepted_of_reading h), hprofile] at h
  cases hp : m.protocolType with
  | priv =>
      rw [hp] at h
      exact ProtocolPrivate.telemetry_inScale h
  | mit =>
      rw [hp] at h
      exact ProtocolMIT.telemetry_inScale h

/-- **The numbers of a status** that `get_status` returns, computed exactly for a profile with
positive limits, are finite and within these limits, or the protocol's where it has its own. -/
theorem snapshot_in_range {m : Motor} {l : Limits} {ls : List (Label m.observed)}
    {c : Config m.observed} (hprofile : m.profile = l.profile)
    (h : Path Any m.observedInitial ls c) :
    ∀ t status, .act t .copyStatus status ∈ ls → status.telemetry.InScale m.protocolType l := by
  intro t status hmem
  obtain ⟨before, after, rfl⟩ := List.append_of_mem hmem
  obtain rfl := copyStatus_eq h
  rw [status_of_updates]
  change (m.after _).vars.status.telemetry.InScale m.protocolType l
  rw [(after_status m _).telemetry]
  rcases last_eq m Reading.telemetry? ((m.updates before).filterMap Update.frame?)
    (MotorStatus.initial m.motorId).telemetry with hfirst | ⟨frame, hframe⟩
  · rw [hfirst]
    exact initial_inScale _ _ _
  · obtain ⟨r, hr, htelemetry⟩ := Option.bind_eq_some_iff.mp hframe
    cases r with
    | telemetry t errorMask =>
        obtain rfl := Option.some.inj htelemetry
        exact telemetry_inScale hprofile hr
    | _ => cases htelemetry

end Ranges

/-- The limits of the sample motor. -/
def sampleLimits : Limits where
  torque := 17
  velocity := 50
  torque_pos := by norm_num
  velocity_pos := by norm_num

theorem snapshot_in_range_aside : ∃ ls t status k,
    Path Any (Motor.sample .priv).observedInitial (ls ++ [.act t .copyStatus status]) k ∧
      status.telemetry.InScale .priv sampleLimits := by
  obtain ⟨ls, t, status, k, hpath, -⟩ := copied_aside
  refine ⟨ls, t, status, k, hpath, ?_⟩
  exact snapshot_in_range rfl hpath t status (List.mem_append_right _ (List.mem_singleton_self _))

end Robstride
