import Mathlib.Data.List.Nodup
import Mathlib.Logic.Function.Basic
import Robstride.Motor.System
import Robstride.Protocol.Decoding

/-!
# Motor — Dispatch

`process_shared_socket` hands each frame to every motor on the transport.  With MIT motors a frame
should change the motor that sent it and no other, through the branch meant for its kind
(`Reaches`).  `is_feedback_frame` and `parse_feedback` take a frame of mode 0 for data feedback
when its first byte is the motor's id, whoever its id names; so a frame goes astray exactly when
it is an identification whose first byte is the id of a motor on the transport (`dispatch_iff`).
-/

namespace Robstride

open Support Support.Pool

/-! ### Motors on one transport -/

/-- MIT motors on one bus, each on its own id, apart from the host's. -/
structure MitBus where
  motors : List Motor
  /-- The host id that data feedback is addressed to. -/
  hostId : Byte
  mit : ∀ m ∈ motors, m.protocolType = .mit
  distinct : (motors.map Motor.motorId).Nodup
  host_free : hostId ∉ motors.map Motor.motorId

/-- The fields of every motor; a motor's status carries its own id. -/
structure MitBus.Vars (bus : MitBus) where
  vars : Motor → MotorVars
  own : ∀ m ∈ bus.motors, (vars m).status.motorId = m.motorId

/-- The fields as constructed. -/
def MitBus.initial (bus : MitBus) : bus.Vars where
  vars := Motor.initialVars
  own _ _ := rfl

/-! ### One frame at one motor -/

section Alone

variable {m : Motor} {frame : CanFrame} {v : MotorVars}

/-- A frame of another motor changes nothing. -/
theorem processFrameAlone_eq_self (h : m.protocol.isFeedbackFrame frame m.motorId = false) :
    m.processFrameAlone frame v = v := by
  unfold Motor.processFrameAlone
  rw [if_neg (Bool.eq_false_iff.mp h)]

/-- A frame of the motor's own that `parse_feedback` accepts. -/
theorem processFrameAlone_parsed {status : MotorStatus}
    (hown : m.protocol.isFeedbackFrame frame m.motorId = true)
    (hparse : m.protocol.parseFeedback frame v.status m.profile = some status) :
    m.processFrameAlone frame v =
      { status := { status with isConnected := true }
        expectedResponseType := v.expectedResponseType
        responseReceived := v.responseReceived ||
          m.protocol.getResponseType frame == v.expectedResponseType
        unacknowledgedCommands := if v.unacknowledgedCommands.sle 0 then 0
          else v.unacknowledgedCommands - 1 } := by
  unfold Motor.processFrameAlone
  rw [if_pos hown, hparse]

/-- A frame of the motor's own that `parse_feedback` rejects. -/
theorem processFrameAlone_rejected (hown : m.protocol.isFeedbackFrame frame m.motorId = true)
    (hparse : m.protocol.parseFeedback frame v.status m.profile = none) :
    m.processFrameAlone frame v = { v with status :=
      { v.status with unknownFrameCount := v.status.unknownFrameCount + 1 } } := by
  unfold Motor.processFrameAlone
  rw [if_pos hown, hparse]

/-- One action of a thread alone. -/
theorem act_alone {t : ℕ} {α : Type} {a : Action} {k : a.Res → Cmd α} {r : a.Res} {x : α}
    {s s' s'' : State} (h : m.perform t a .go s = some (r, s'))
    (hk : Alone (S := m.system) t (k r) s' x s'') :
    Alone (S := m.system) t (.act a k) s x s'' :=
  .act (S := m.system) Choice.go h hk

/-- The end of `process_frame`: the answer to a waiting command, and the release of the mutex. -/
theorem answer_alone {t : ℕ} (frameType : FrameType) {s : State} (hlocked : s.motorMutex = some t) :
    ∃ s', Alone (S := m.system) t (do
        let expected ← expectedType
        if frameType = expected then notify
        unlockMotor) s () s' ∧
      s'.vars = { s.vars with
        responseReceived := s.vars.responseReceived || frameType == s.vars.expectedResponseType } := by
  have hunlock : ∀ s₁ : State, s₁.motorMutex = some t →
      Alone (S := m.system) t unlockMotor s₁ () { s₁ with motorMutex := none } :=
    fun s₁ h => act_alone (if_pos h) (.ret (S := m.system) () _)
  by_cases htype : frameType = s.vars.expectedResponseType
  · refine ⟨_, act_alone rfl (.ite_pos (S := m.system) htype
      (act_alone rfl (hunlock _ hlocked))), ?_⟩
    rw [beq_iff_eq.mpr htype, Bool.or_true]
    rfl
  · refine ⟨_, act_alone rfl (.ite_neg (S := m.system) htype
      (hunlock _ hlocked)), ?_⟩
    rw [beq_eq_false_iff_ne.mpr htype, Bool.or_false]

theorem processFrame_alone {t : ℕ} {reply : Reply} {s : State} (hfree : s.motorMutex = none) :
    ∃ s', Alone (S := m.system) t (m.processFrame reply) s () s' ∧
      s'.vars = m.processFrameAlone reply.frame s.vars := by
  unfold Motor.processFrame
  by_cases hown : m.protocol.isFeedbackFrame reply.frame m.motorId = true
  · rw [if_pos hown]
    obtain ⟨s₁, hlock, hvars₁, hlocked₁⟩ : ∃ s₁, m.perform t .lockMotor .go s = some ((), s₁) ∧
        s₁.vars = s.vars ∧ s₁.motorMutex = some t := ⟨_, if_pos hfree, rfl, rfl⟩
    rw [← hvars₁]
    cases hparse : m.protocol.parseFeedback reply.frame s₁.vars.status m.profile with
    | none =>
        have hrejected : m.perform t (.parse reply) .go s₁ = some (false, s₁) := by
          simp only [Motor.perform, hparse]
        -- Refused: counted, and the mutex released.
        rw [processFrameAlone_rejected hown hparse]
        exact ⟨_, act_alone hlock (act_alone hrejected
          (act_alone rfl (act_alone (if_pos hlocked₁)
            (.ret (S := m.system) () _)))), rfl⟩
    | some status =>
        obtain ⟨s₂, hparsed, hvars₂, hlocked₂⟩ : ∃ s₂,
            m.perform t (.parse reply) .go s₁ = some (true, s₂) ∧
              s₂.vars = { s₁.vars with status := { status with isConnected := true } } ∧
              s₂.motorMutex = some t := by
          simp only [Motor.perform, hparse]
          exact ⟨_, rfl, rfl, hlocked₁⟩
        obtain ⟨s₃, hsub, hvars₃, hlocked₃⟩ : ∃ s₃, m.perform t (.fetchSub reply) .go s₂ =
            some (s₂.vars.unacknowledgedCommands, s₃) ∧ s₃.vars = { s₂.vars with
              unacknowledgedCommands := s₂.vars.unacknowledgedCommands - 1 } ∧
              s₃.motorMutex = some t := ⟨_, rfl, rfl, hlocked₂⟩
        rw [processFrameAlone_parsed hown hparse]
        by_cases hclamp : s₂.vars.unacknowledgedCommands.sle 0 = true
        · -- The second access to the counter clamps it at zero.
          obtain ⟨s₄, hstore, hvars₄, hlocked₄⟩ : ∃ s₄, m.perform t (.store 0) .go s₃ =
              some ((), s₄) ∧ s₄.vars = { s₃.vars with unacknowledgedCommands := 0 } ∧
              s₄.motorMutex = some t := ⟨_, rfl, rfl, hlocked₃⟩
          obtain ⟨s', hanswer, hvars⟩ :=
            answer_alone (m := m) (m.protocol.getResponseType reply.frame) hlocked₄
          refine ⟨s', act_alone hlock (act_alone hparsed
            (act_alone hsub (.ite_pos (S := m.system) hclamp
              (act_alone hstore hanswer)))), ?_⟩
          rw [hvars₂] at hclamp
          rw [hvars, hvars₄, hvars₃, hvars₂, if_pos hclamp]
        · obtain ⟨s', hanswer, hvars⟩ :=
            answer_alone (m := m) (m.protocol.getResponseType reply.frame) hlocked₃
          refine ⟨s', act_alone hlock (act_alone hparsed
            (act_alone hsub (.ite_neg (S := m.system) hclamp hanswer))), ?_⟩
          rw [hvars₂] at hclamp
          rw [hvars, hvars₃, hvars₂, if_neg hclamp]
  · rw [if_neg hown, processFrameAlone_eq_self (Bool.eq_false_iff.mpr hown)]
    exact ⟨s, .ret (S := m.system) () s, rfl⟩

/-- **`process_frame` alone**: when the receive thread takes a frame and no other thread acts, it
leaves what `processFrameAlone` says. -/
theorem processFrame_run {c : Config m.system} {t : ℕ} {reply : Reply}
    (hidle : c.threads t = .ret ()) (hfree : c.state.motorMutex = none)
    (harrived : c.state.replies.head? = some reply) :
    ∃ (chs : List Choice) (c' : Config m.system),
      c.run (.call t (Op.processFrame reply) :: chs.map (Event.step t)) = some c' ∧
        c'.state.vars = m.processFrameAlone reply.frame c.state.vars := by
  let taken : State := { c.state with replies := c.state.replies.tail }
  obtain ⟨s', halone, hvars⟩ :
      ∃ s', Alone (S := m.system) t (m.processFrame reply) taken () s' ∧
        s'.vars = m.processFrameAlone reply.frame c.state.vars := processFrame_alone hfree
  obtain ⟨chs, hrun⟩ := halone.run (Function.update c.threads t (m.processFrame reply))
    (Function.update_self ..)
  have hcall : c.next (.call t (Op.processFrame reply)) =
      some ⟨taken, Function.update c.threads t (m.processFrame reply)⟩ := by
    simp only [Config.next, hidle, State.call, harrived, if_true, Option.map_some]
    rfl
  exact ⟨chs, _, Option.bind_eq_some_iff.mpr ⟨_, hcall, hrun⟩, hvars⟩

theorem ProtocolMIT.parseFeedback_motorId {status status' : MotorStatus} {profile : MotorProfile}
    (h : ProtocolMIT.parseFeedback frame status profile = some status') :
    status'.motorId = status.motorId := by
  simp only [ProtocolMIT.parseFeedback] at h
  split_ifs at h <;> exact Option.some.inj h ▸ rfl

variable (hm : m.protocolType = .mit)

include hm

theorem isFeedbackFrame_mit : m.protocol.isFeedbackFrame = ProtocolMIT.isFeedbackFrame :=
  congrArg (fun p => (Protocol.strategy p).isFeedbackFrame) hm

theorem parseFeedback_mit : m.protocol.parseFeedback = ProtocolMIT.parseFeedback :=
  congrArg (fun p => (Protocol.strategy p).parseFeedback) hm

/-- A frame does not change the id of an MIT motor. -/
theorem processFrameAlone_motorId :
    (m.processFrameAlone frame v).status.motorId = v.status.motorId := by
  cases hown : m.protocol.isFeedbackFrame frame m.motorId with
  | false => rw [processFrameAlone_eq_self hown]
  | true =>
      cases hparse : m.protocol.parseFeedback frame v.status m.profile with
      | none => rw [processFrameAlone_rejected hown hparse]
      | some status =>
          rw [processFrameAlone_parsed hown hparse]
          rw [parseFeedback_mit hm] at hparse
          have hid := ProtocolMIT.parseFeedback_motorId hparse
          exact hid

end Alone

/-! ### The loop over the motors -/

/-- The loop over the motors, for one frame. -/
def dispatchLoop (motors : List Motor) (frame : CanFrame) (vars : Motor → MotorVars) :
    Motor → MotorVars :=
  motors.foldl (fun vars m => Function.update vars m (m.processFrameAlone frame (vars m))) vars

/-- Each motor sees the frame once. -/
theorem dispatchLoop_apply {motors : List Motor} (hmotors : motors.Nodup) (frame : CanFrame)
    (vars : Motor → MotorVars) (m : Motor) : dispatchLoop motors frame vars m =
      if m ∈ motors then m.processFrameAlone frame (vars m) else vars m := by
  unfold dispatchLoop
  induction motors generalizing vars with
  | nil => rfl
  | cons m' motors ih =>
      obtain ⟨hm', hmotors⟩ := List.nodup_cons.mp hmotors
      rw [List.foldl_cons, ih hmotors]
      rcases eq_or_ne m m' with rfl | hne
      · rw [if_neg hm', if_pos List.mem_cons_self, Function.update_self]
      · simp only [List.mem_cons, hne, false_or, Function.update_of_ne hne]

theorem MitBus.nodup (bus : MitBus) : bus.motors.Nodup := bus.distinct.of_map _

/-- `process_shared_socket` for one frame. -/
def MitBus.dispatch (bus : MitBus) (frame : CanFrame) (s : bus.Vars) : bus.Vars where
  vars := dispatchLoop bus.motors frame s.vars
  own m hm := by
    rw [dispatchLoop_apply bus.nodup, if_pos hm, processFrameAlone_motorId (bus.mit m hm)]
    exact s.own m hm

/-! ### The frames a motor sends -/

/-- What the motor with id `a` may send. -/
inductive MitReply (a : Byte) where
  | feedback (data : Payload) (first : data.byte 0 = a)
  | identification (data : Payload)
  | param (mode : Byte) (known : mode = 3 ∨ mode = 4) (data : Payload)

namespace MitReply

variable {a : Byte}

/-- The frame of the reply. -/
def frame (hostId : Byte) : MitReply a → CanFrame
  | feedback data _ => ⟨hostId.setWidth 32, 8, data⟩
  | identification data => ⟨a.setWidth 32, 8, data⟩
  | param mode _ data => ⟨(mode.setWidth 32 <<< 8) ||| a.setWidth 32, 8, data⟩

/-- What the frame is meant to change: telemetry, the MCU id, or the parameter pair. -/
def intended (profile : MotorProfile) (status : MotorStatus) : MitReply a → MotorStatus
  | feedback data _ =>
      { status with
        angle := rsMitMathDecodeAngle (rsUnpackUint16 (data.byte 1) (data.byte 2))
        velocity := rsMitMathDecodeVelocity (rsUnpackMit12bitVel (data.byte 3) (data.byte 4))
        torque := rsMitMathDecodeTorque (rsUnpackMit12bitTorque (data.byte 4) (data.byte 5))
          profile.torqueLimit
        temperature := .fin (rsUnpackUint16 (data.byte 6) (data.byte 7)).toNat * .fin 0.1
        state := .run }
  | identification data => { status with mcuId := rsUnpackUint64 data }
  | param _ _ data =>
      { status with
        readParamIndex := rsUnpackUint16 (data.byte 1) (data.byte 0)
        readParamPayload := rsUnpackUint32 (data.byte 7) (data.byte 6) (data.byte 5) (data.byte 4) }

/-- An identification whose first byte is the id of a motor. -/
def Astray (bus : MitBus) : MitReply a → Prop
  | identification data => data.byte 0 ∈ bus.motors.map Motor.motorId
  | _ => False

end MitReply

/-- The frame changes the motor `a` as it is meant to, and no other. -/
def Reaches (bus : MitBus) (a : Motor) (reply : MitReply a.motorId) (s s' : bus.Vars) : Prop :=
  (s'.vars a).status = { reply.intended a.profile (s.vars a).status with isConnected := true } ∧
    ∀ m ∈ bus.motors, m ≠ a → s'.vars m = s.vars m

/-! ### Ids on the wire -/

theorem effFlag_id (b : Byte) : b.setWidth 32 &&& canEffFlag = 0 := by
  revert b
  decide +kernel

theorem mode_id (b dlc : Byte) (data : Payload) :
    ProtocolMIT.mode ⟨b.setWidth 32, dlc, data⟩ = 0 := by
  simp only [ProtocolMIT.mode]
  revert b
  decide +kernel

theorem rxId_id (b dlc : Byte) (data : Payload) :
    ProtocolMIT.rxId ⟨b.setWidth 32, dlc, data⟩ = b := by
  simp only [ProtocolMIT.rxId]
  revert b
  decide +kernel

section Param

variable {mode : Byte} (known : mode = 3 ∨ mode = 4)

include known

theorem effFlag_param (b : Byte) :
    ((mode.setWidth 32 <<< 8) ||| b.setWidth 32) &&& canEffFlag = 0 := by
  rcases known with rfl | rfl <;> revert b <;> decide +kernel

theorem mode_param (b dlc : Byte) (data : Payload) :
    ProtocolMIT.mode ⟨(mode.setWidth 32 <<< 8) ||| b.setWidth 32, dlc, data⟩ = mode := by
  simp only [ProtocolMIT.mode]
  rcases known with rfl | rfl <;> revert b <;> decide +kernel

theorem rxId_param (b dlc : Byte) (data : Payload) :
    ProtocolMIT.rxId ⟨(mode.setWidth 32 <<< 8) ||| b.setWidth 32, dlc, data⟩ = b := by
  simp only [ProtocolMIT.rxId]
  rcases known with rfl | rfl <;> revert b <;> decide +kernel

end Param

/-! ### Which motor takes a frame -/

/-- A frame with the id `rx` in mode 0 is taken by the motors `rx` and `data[0]`. -/
theorem isFeedbackFrame_id (rx : Byte) (data : Payload) (b : Byte) :
    ProtocolMIT.isFeedbackFrame ⟨rx.setWidth 32, 8, data⟩ b = decide (data.byte 0 = b ∨ rx = b) := by
  have hfull : ¬ (8 : Byte) < 8 := by decide
  rw [Bool.eq_iff_iff, ProtocolMIT.isFeedbackFrame_iff, decide_eq_true_eq, or_comm]
  simp only [ProtocolMIT.Addressed, effFlag_id, mode_id, rxId_id, hfull, not_false_eq_true,
    true_and, and_true]

/-- A frame in mode 0 whose first byte is the motor's id is telemetry to it. -/
theorem parseFeedback_first (rx : Byte) {data : Payload} {status : MotorStatus}
    (hfirst : data.byte 0 = status.motorId) (profile : MotorProfile) :
    ∃ status', ProtocolMIT.parseFeedback ⟨rx.setWidth 32, 8, data⟩ status profile = some status' ∧
      status'.state = .run := by
  unfold ProtocolMIT.parseFeedback
  rw [if_pos ⟨mode_id rx 8 data, hfirst⟩]
  exact ⟨_, rfl, rfl⟩

/-- A parameter reply is taken by the motor its id names. -/
theorem isFeedbackFrame_param {mode : Byte} (known : mode = 3 ∨ mode = 4) (rx : Byte)
    (data : Payload) (b : Byte) :
    ProtocolMIT.isFeedbackFrame ⟨(mode.setWidth 32 <<< 8) ||| rx.setWidth 32, 8, data⟩ b =
      decide (rx = b) := by
  have hmode : mode ≠ 0 := by rcases known with rfl | rfl <;> decide
  have hfull : ¬ (8 : Byte) < 8 := by decide
  rw [Bool.eq_iff_iff, ProtocolMIT.isFeedbackFrame_iff, decide_eq_true_eq]
  simp only [ProtocolMIT.Addressed, effFlag_param known, mode_param known, rxId_param known, hfull,
    hmode, not_false_eq_true, false_and, true_and, and_true, or_false]

namespace MitReply

variable {bus : MitBus} {a : Motor} {reply : MitReply a.motorId}

/-- Only the sender takes a frame that does not go astray. -/
theorem takes_iff (hreply : ¬ reply.Astray bus) {m : Motor} (hm : m ∈ bus.motors) :
    ProtocolMIT.isFeedbackFrame (reply.frame bus.hostId) m.motorId =
      decide (a.motorId = m.motorId) := by
  have hid : m.motorId ∈ bus.motors.map Motor.motorId := List.mem_map_of_mem hm
  cases reply with
  | feedback data first =>
      have hhost : bus.hostId ≠ m.motorId := fun h => bus.host_free (h ▸ hid)
      rw [frame, isFeedbackFrame_id, first]
      simp only [hhost, or_false]
  | identification data =>
      have hfirst : data.byte 0 ≠ m.motorId := fun h => hreply (h.symm.subst hid)
      rw [frame, isFeedbackFrame_id]
      simp only [hfirst, false_or]
  | param mode known data => rw [frame, isFeedbackFrame_param known]

/-- The sender takes such a frame through the branch meant for it. -/
theorem parse_intended (ha : a ∈ bus.motors) (hreply : ¬ reply.Astray bus) {status : MotorStatus}
    (hown : status.motorId = a.motorId) :
    ProtocolMIT.parseFeedback (reply.frame bus.hostId) status a.profile =
      some (reply.intended a.profile status) := by
  cases reply with
  | feedback data first =>
      simp only [frame, ProtocolMIT.parseFeedback, mode_id, hown, first, and_self, if_true, intended]
  | identification data =>
      have hid : a.motorId ∈ bus.motors.map Motor.motorId := List.mem_map_of_mem ha
      have hfirst : data.byte 0 ≠ a.motorId := fun h => hreply (h.symm.subst hid)
      simp only [frame, ProtocolMIT.parseFeedback, mode_id, rxId_id, hown, hfirst, and_false,
        and_self, if_true, if_false, intended]
  | param mode known data =>
      have hmode : mode ≠ 0 := by rcases known with rfl | rfl <;> decide
      simp only [frame, ProtocolMIT.parseFeedback, mode_param known, rxId_param known, hown, hmode,
        known, false_and, and_self, if_true, if_false, intended]

end MitReply

/-! ### Dispatch -/

section Dispatch

variable {bus : MitBus} {a : Motor}

theorem MitBus.dispatch_vars {m : Motor} (hm : m ∈ bus.motors) (frame : CanFrame) (s : bus.Vars) :
    (bus.dispatch frame s).vars m = m.processFrameAlone frame (s.vars m) := by
  change dispatchLoop bus.motors frame s.vars m = _
  rw [dispatchLoop_apply bus.nodup, if_pos hm]

/-- An identification is telemetry to the motor its first byte names. -/
theorem identification_runs {b : Motor} (hb : b ∈ bus.motors) {data : Payload}
    (hfirst : data.byte 0 = b.motorId) (s : bus.Vars) :
    ((bus.dispatch ((MitReply.identification data : MitReply a.motorId).frame bus.hostId) s).vars
      b).status.state = .run := by
  have hown : b.protocol.isFeedbackFrame ⟨a.motorId.setWidth 32, 8, data⟩ b.motorId = true := by
    rw [isFeedbackFrame_mit (bus.mit b hb), isFeedbackFrame_id]
    exact decide_eq_true (Or.inl hfirst)
  have hid : data.byte 0 = (s.vars b).status.motorId := hfirst.trans (s.own b hb).symm
  obtain ⟨status, hparse, hrun⟩ := parseFeedback_first a.motorId hid b.profile
  rw [← parseFeedback_mit (bus.mit b hb)] at hparse
  rw [bus.dispatch_vars hb, MitReply.frame, processFrameAlone_parsed hown hparse]
  exact hrun

/-- **One frame on the bus**: it reaches its sender alone, as it is meant to, exactly when it is
not an identification whose first byte is the id of a motor. -/
theorem dispatch_iff (bus : MitBus) {a : Motor} (ha : a ∈ bus.motors)
    (reply : MitReply a.motorId) :
    (∀ s : bus.Vars, Reaches bus a reply s (bus.dispatch (reply.frame bus.hostId) s)) ↔
      ¬ reply.Astray bus := by
  constructor
  · intro hreaches hastray
    cases reply with
    | feedback => exact hastray
    | param => exact hastray
    | identification data =>
        -- The motor that the first byte names takes the frame for telemetry, and runs.
        obtain ⟨b, hb, hfirst⟩ := List.mem_map.mp hastray
        obtain ⟨hsender, hothers⟩ := hreaches bus.initial
        have hrun := identification_runs (a := a) hb hfirst.symm bus.initial
        rcases eq_or_ne b a with rfl | hne
        · rw [hsender] at hrun
          have hreset : MotorState.reset = .run := hrun
          contradiction
        · rw [hothers b hb hne] at hrun
          have hreset : MotorState.reset = .run := hrun
          contradiction
  · intro hreply s
    have htakes : ∀ m ∈ bus.motors, m.protocol.isFeedbackFrame (reply.frame bus.hostId) m.motorId =
        decide (a.motorId = m.motorId) := fun m hm => by
      rw [isFeedbackFrame_mit (bus.mit m hm)]
      exact MitReply.takes_iff hreply hm
    refine ⟨?_, fun m hm hne => ?_⟩
    · -- The sender takes the frame, and nobody else does.
      have hparse := MitReply.parse_intended ha hreply (s.own a ha)
      rw [← parseFeedback_mit (bus.mit a ha)] at hparse
      rw [bus.dispatch_vars ha,
        processFrameAlone_parsed ((htakes a ha).trans (decide_eq_true rfl)) hparse]
    · have hid : a.motorId ≠ m.motorId := fun h =>
        hne (List.inj_on_of_nodup_map bus.distinct hm ha h.symm)
      rw [bus.dispatch_vars hm]
      exact processFrameAlone_eq_self ((htakes m hm).trans (decide_eq_false hid))

end Dispatch

/-- An MIT motor of the host 0. -/
def Motor.mitSample (motorId : Byte) : Motor where
  motorId := motorId
  hostId := 0
  profile := ⟨.fin 17, .fin 50⟩
  protocolType := .mit
  overrunLimit := 5

/-- The motors 1 and 2, with the host 0. -/
def MitBus.sample : MitBus where
  motors := [.mitSample 1, .mitSample 2]
  hostId := 0
  mit := by decide
  distinct := by decide
  host_free := by decide

theorem dispatch_iff_sample :
    Reaches .sample (.mitSample 1) (.identification #v[3, 2, 1, 0, 0, 0, 0, 0])
      MitBus.sample.initial
      (MitBus.sample.dispatch ⟨1, 8, #v[3, 2, 1, 0, 0, 0, 0, 0]⟩ MitBus.sample.initial) :=
  (dispatch_iff .sample (by decide) (.identification #v[3, 2, 1, 0, 0, 0, 0, 0])).mpr
    (show (3 : Byte) ∉ [1, 2] by decide) MitBus.sample.initial

/-- Motor 1 sends its MCU id, whose first byte is 2: motor 2 takes it for its own telemetry. -/
theorem identification_astray :
    ¬ Reaches .sample (.mitSample 1) (.identification #v[2, 0, 0, 0, 0, 0, 0, 0])
      MitBus.sample.initial
      (MitBus.sample.dispatch ⟨1, 8, #v[2, 0, 0, 0, 0, 0, 0, 0]⟩ MitBus.sample.initial) := by
  have hfirst : Payload.byte #v[2, 0, 0, 0, 0, 0, 0, 0] 0 = (Motor.mitSample 2).motorId := rfl
  have hmem : Motor.mitSample 2 ∈ MitBus.sample.motors := by decide
  have hrun := identification_runs (a := .mitSample 1) hmem hfirst MitBus.sample.initial
  intro h
  have hsame : MotorState.run = .reset :=
    hrun.symm.trans (congrArg (fun v => v.status.state) (h.2 _ hmem (by decide)))
  contradiction

end Robstride
