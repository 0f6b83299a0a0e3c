import Robstride.Motor.Dispatch
import Robstride.Protocol.Decoding
import Robstride.Support.Registers

/-!
# Motor — Frames one by one

`process_frame` as a function of the frame: what the motor decodes of it (`Motor.reading`), and
what that makes of the fields (`processFrameAlone_status`).

Three properties are settled here.  `get_response_type` names the branch the parser takes, but for
an MIT identification, which it calls feedback (`typeAgrees_iff`).  Bytes beyond the declared length
are never read by an MIT motor, which checks the length, and always by a private one, which does not
(`lengthRespected_iff`).  After any frames, each field of the status holds the last value decoded
for it (`status_after`).
-/

namespace Robstride

open Support (Register Tally SameByClass)

variable {m : Motor} {frame : CanFrame} {status : MotorStatus} {v : MotorVars}

/-! ### What a motor decodes -/

/-- What the motor decodes of a frame: nothing where the frame is not for it, or is refused. -/
def Motor.reading (m : Motor) (frame : CanFrame) : Option Reading :=
  if m.protocol.isFeedbackFrame frame m.motorId then
    match m.protocolType with
    | .priv => ProtocolPrivate.reading frame m.profile
    | .mit => ProtocolMIT.reading frame m.motorId m.profile
  else none

theorem reading_of_foreign (h : m.protocol.isFeedbackFrame frame m.motorId = false) :
    m.reading frame = none := by
  unfold Motor.reading
  rw [if_neg (Bool.eq_false_iff.mp h)]

theorem accepted_of_reading {r : Reading} (h : m.reading frame = some r) :
    m.protocol.isFeedbackFrame frame m.motorId = true := by
  cases hown : m.protocol.isFeedbackFrame frame m.motorId with
  | true => rfl
  | false =>
      rw [reading_of_foreign hown] at h
      cases h

/-- `parse_feedback` into the status of the motor writes what the frame carries. -/
theorem parseFeedback_of_own (hacc : m.protocol.isFeedbackFrame frame m.motorId = true)
    (hown : status.motorId = m.motorId) : m.protocol.parseFeedback frame status m.profile =
      (m.reading frame).map fun r => r.apply status := by
  unfold Motor.reading
  rw [if_pos hacc]
  unfold Motor.protocol at hacc ⊢
  cases hp : m.protocolType with
  | priv =>
      rw [hp] at hacc
      obtain ⟨-, hid, -⟩ := (ProtocolPrivate.isFeedbackFrame_iff m.profile).mp hacc
      exact ProtocolPrivate.parseFeedback_eq (hid.trans hown.symm)
  | mit =>
      rw [← hown]
      exact ProtocolMIT.parseFeedback_eq

/-- What a frame makes of the status of a motor. -/
theorem processFrameAlone_status (hown : v.status.motorId = m.motorId) :
    (m.processFrameAlone frame v).status =
      match m.reading frame with
      | some r => { r.apply v.status with isConnected := true }
      | none =>
          if m.protocol.isFeedbackFrame frame m.motorId then
            { v.status with unknownFrameCount := v.status.unknownFrameCount + 1 }
          else v.status := by
  cases hacc : m.protocol.isFeedbackFrame frame m.motorId with
  | false =>
      rw [processFrameAlone_eq_self hacc, reading_of_foreign hacc]
      rfl
  | true =>
      have hparse := parseFeedback_of_own hacc hown
      cases hr : m.reading frame with
      | none =>
          rw [hr] at hparse
          rw [processFrameAlone_rejected hacc hparse]
          rfl
      | some r =>
          rw [hr] at hparse
          rw [processFrameAlone_parsed hacc hparse]

/-! ### The type of a frame and its branch -/

/-- `parse_feedback` writes the fields of the branch `b`: to values that come from the frame, and no
other field. -/
def Motor.Writes (m : Motor) (frame : CanFrame) (b : Branch) : Prop :=
  ∃ r : Reading, r.branch = b ∧ ∀ status : MotorStatus, status.motorId = m.motorId →
    m.protocol.parseFeedback frame status m.profile = some (r.apply status)

/-- The branch written is the branch of the reading. -/
theorem writes_iff {r : Reading} (hr : m.reading frame = some r) {b : Branch} :
    m.Writes frame b ↔ r.branch = b := by
  have hacc := accepted_of_reading hr
  constructor
  · rintro ⟨r', rfl, hr'⟩
    have happly : ∀ status : MotorStatus, status.motorId = m.motorId →
        r'.apply status = r.apply status := by
      intro status hown
      have hparse := parseFeedback_of_own hacc hown
      rw [hr, hr' status hown] at hparse
      exact Option.some.inj hparse
    have hown : (MotorStatus.initial m.motorId).motorId = m.motorId := rfl
    have htouch := happly (r'.branch.touch (.initial m.motorId)) (Branch.touch_motorId ..)
    rw [(r'.apply_touch_iff _ _).mpr rfl, happly _ hown] at htouch
    exact (r.apply_touch_iff _ _).mp htouch.symm
  · rintro rfl
    refine ⟨r, rfl, fun status hown => ?_⟩
    rw [parseFeedback_of_own hacc hown, hr, Option.map_some]

/-- The type of the frame names the branch that it is written through, and it answers commands that
wait for that branch only. -/
structure TypeAgrees (m : Motor) (frame : CanFrame) : Prop where
  type : ∀ b : Branch, m.protocol.getResponseType frame = b.type ↔ m.Writes frame b
  completes : ∀ v : MotorVars, v.status.motorId = m.motorId → v.responseReceived = false →
    (m.processFrameAlone frame v).responseReceived = true →
      ∃ b : Branch, b.type = v.expectedResponseType ∧ m.Writes frame b

/-- A frame whose type names its branch answers for that branch. -/
theorem typeAgrees_of_type {r : Reading} (hr : m.reading frame = some r)
    (htype : m.protocol.getResponseType frame = r.branch.type) : TypeAgrees m frame where
  type b := by
    rw [writes_iff hr, htype]
    exact Branch.type_injective.eq_iff
  completes v hown hwaits hdone := by
    have hacc := accepted_of_reading hr
    have hparse := parseFeedback_of_own hacc hown
    rw [hr] at hparse
    rw [processFrameAlone_parsed hacc hparse, hwaits] at hdone
    have hexpected : m.protocol.getResponseType frame = v.expectedResponseType := by
      simpa using hdone
    exact ⟨r.branch, htype.symm.trans hexpected, (writes_iff hr).mpr rfl⟩

/-- An MIT frame that identifies the motor: mode 0, and its first byte is not the motor's id. -/
def Motor.Identifies (m : Motor) (frame : CanFrame) : Prop :=
  m.protocolType = .mit ∧ ProtocolMIT.mode frame = 0 ∧ frame.data.byte 0 ≠ m.motorId

/-- The MIT classifier names the branch of every frame but an identification. -/
theorem ProtocolMIT.getResponseType_iff {motorId : Byte} {profile : MotorProfile} {r : Reading}
    (h : ProtocolMIT.reading frame motorId profile = some r) :
    ProtocolMIT.getResponseType frame = r.branch.type ↔
      ¬ (mode frame = 0 ∧ frame.data.byte 0 ≠ motorId) := by
  unfold ProtocolMIT.reading at h
  unfold ProtocolMIT.getResponseType
  by_cases hmode : mode frame = 0
  · -- Mode 0 is telemetry if the first byte is the id, and an identification otherwise.
    by_cases hfirst : frame.data.byte 0 = motorId
    · simp only [hmode, hfirst, and_self, if_true] at h
      cases h
      simp [hmode, hfirst, Reading.branch, Branch.type]
    · by_cases hrx : rxId frame = motorId
      · simp only [hmode, hfirst, hrx, and_false, if_false, and_self, if_true] at h
        cases h
        simp [hmode, hfirst, Reading.branch, Branch.type]
      · simp [hmode, hfirst, hrx] at h
  · by_cases hparam : (mode frame = 3 ∨ mode frame = 4) ∧ rxId frame = motorId
    · simp only [hmode, hparam, false_and, if_false, and_self, if_true] at h
      cases h
      rw [if_pos hparam.1]
      exact iff_of_true rfl fun h => hmode h.1
    · simp only [hmode, hparam, false_and, if_false] at h
      cases h

/-- The type names the branch exactly where the frame is no MIT identification. -/
theorem getResponseType_iff {r : Reading} (hr : m.reading frame = some r) :
    m.protocol.getResponseType frame = r.branch.type ↔ ¬ m.Identifies frame := by
  have hacc := accepted_of_reading hr
  unfold Motor.reading at hr
  rw [if_pos hacc] at hr
  unfold Motor.Identifies Motor.protocol
  cases hp : m.protocolType with
  | priv =>
      rw [hp] at hr
      exact iff_of_true (ProtocolPrivate.getResponseType_eq hr) fun h => by cases h.1
  | mit =>
      rw [hp] at hr
      simp only [true_and]
      exact ProtocolMIT.getResponseType_iff hr

/-- **The type of a frame agrees with its decoding** exactly where the frame is no MIT
identification. -/
theorem typeAgrees_iff {status' : MotorStatus} (hown : status.motorId = m.motorId)
    (hacc : m.protocol.isFeedbackFrame frame m.motorId = true)
    (hparse : m.protocol.parseFeedback frame status m.profile = some status') :
    TypeAgrees m frame ↔ ¬ m.Identifies frame := by
  rw [parseFeedback_of_own hacc hown] at hparse
  obtain ⟨r, hr, -⟩ := Option.map_eq_some_iff.mp hparse
  rw [← getResponseType_iff hr]
  constructor
  · intro hagrees
    exact (hagrees.type r.branch).mpr ((writes_iff hr).mpr rfl)
  · exact typeAgrees_of_type hr

/-- Telemetry of motor 1. -/
theorem typeAgrees_iff_telemetry :
    TypeAgrees (.mitSample 1) ⟨0, 8, #v[1, 0x80, 0, 0x80, 0x08, 0, 0, 250]⟩ :=
  have hparse : (Motor.mitSample 1).protocol.parseFeedback ⟨0, 8, #v[1, 0x80, 0, 0x80, 0x08, 0, 0, 250]⟩
      (.initial 1) (Motor.mitSample 1).profile = some _ := rfl
  (typeAgrees_iff rfl (by decide) hparse).mpr fun h => h.2.2 rfl

/-- Motor 1 sends its MCU id while a command waits for feedback. -/
theorem identification_completes :
    (Motor.mitSample 1).protocol.isFeedbackFrame ⟨1, 8, #v[9, 2, 1, 0, 0, 0, 0, 0]⟩ 1 = true ∧
      ((Motor.mitSample 1).protocol.parseFeedback ⟨1, 8, #v[9, 2, 1, 0, 0, 0, 0, 0]⟩ (.initial 1)
        (Motor.mitSample 1).profile).isSome = true ∧
      ¬ TypeAgrees (.mitSample 1) ⟨1, 8, #v[9, 2, 1, 0, 0, 0, 0, 0]⟩ := by
  have hreading : (Motor.mitSample 1).reading ⟨1, 8, #v[9, 2, 1, 0, 0, 0, 0, 0]⟩ =
      some (.mcu 0x0902010000000000) := by decide
  refine ⟨by decide, by decide, fun h => ?_⟩
  obtain ⟨b, hb, hwrites⟩ := h.completes
    { (Motor.mitSample 1).initialVars with expectedResponseType := .feedback } rfl rfl (by decide)
  obtain rfl := (writes_iff hreading).mp hwrites
  cases hb

/-! ### The declared length of a frame -/

/-- Two frames are the same up to their declared length. -/
structure AgreeToLength (f g : CanFrame) : Prop where
  canId : f.canId = g.canId
  canDlc : f.canDlc = g.canDlc
  data : ∀ i : Fin 8, i.val < f.canDlc.toNat → f.data.byte i = g.data.byte i

theorem Payload.ext {data data' : Payload} (h : ∀ i : Fin 8, data.byte i = data'.byte i) :
    data = data' := Vector.ext fun i hi => h ⟨i, hi⟩

/-- A frame that declares all its bytes is the only one that agrees with it. -/
theorem AgreeToLength.eq {f g : CanFrame} (h : AgreeToLength f g) (hdlc : 8 ≤ f.canDlc.toNat) :
    f = g := by
  obtain ⟨hid, hlen, hdata⟩ := h
  have hpayload : f.data = g.data := Payload.ext fun i => hdata i (by omega)
  cases f
  cases g
  simp only at hid hlen hpayload
  rw [hid, hlen, hpayload]

/-- A frame that declares fewer bytes does not fix the last one. -/
theorem agree_touchLast (hdlc : frame.canDlc.toNat < 8) :
    AgreeToLength frame frame.touchLast where
  canId := rfl
  canDlc := rfl
  data i hi := by
    refine (touchLast_byte frame ?_).symm
    rintro rfl
    omega

/-- The private filter looks at the id only. -/
theorem accepted_priv_congr (hp : m.protocolType = .priv) {f g : CanFrame}
    (hid : f.canId = g.canId) :
    m.protocol.isFeedbackFrame f m.motorId = m.protocol.isFeedbackFrame g m.motorId := by
  unfold Motor.protocol
  rw [hp]
  change ProtocolPrivate.isFeedbackFrame f m.motorId = ProtocolPrivate.isFeedbackFrame g m.motorId
  unfold ProtocolPrivate.isFeedbackFrame
  rw [hid]

/-- A private motor decodes every frame it accepts. -/
theorem reading_priv (hp : m.protocolType = .priv)
    (hacc : m.protocol.isFeedbackFrame frame m.motorId = true) :
    ∃ r, m.reading frame = some r ∧ ProtocolPrivate.reading frame m.profile = some r := by
  have hreading : m.reading frame = ProtocolPrivate.reading frame m.profile := by
    unfold Motor.reading
    rw [if_pos hacc, hp]
  unfold Motor.protocol at hacc
  rw [hp] at hacc
  obtain ⟨-, -, hsome⟩ := (ProtocolPrivate.isFeedbackFrame_iff m.profile).mp hacc
  obtain ⟨r, hr⟩ := Option.isSome_iff_exists.mp hsome
  exact ⟨r, hreading.trans hr, hr⟩

/-- The MIT filter refuses a frame that declares fewer than eight bytes. -/
theorem mit_refuses_short (hm : m.protocolType = .mit) (hdlc : frame.canDlc.toNat < 8) :
    m.protocol.isFeedbackFrame frame m.motorId = false := by
  have hlt : frame.canDlc < 8 := BitVec.lt_def.mpr hdlc
  rw [isFeedbackFrame_mit hm, Bool.eq_false_iff, ne_eq, ProtocolMIT.isFeedbackFrame_iff]
  exact fun h => h.2 hlt

/-- A private motor reads the last byte of every frame it accepts. -/
theorem private_reads_last (hp : m.protocolType = .priv)
    (hacc : m.protocol.isFeedbackFrame frame m.motorId = true) :
    m.processFrameAlone frame m.initialVars ≠
      m.processFrameAlone frame.touchLast m.initialVars := by
  intro h
  obtain ⟨r, hr, hpriv⟩ := reading_priv hp hacc
  have hacc' : m.protocol.isFeedbackFrame frame.touchLast m.motorId =
      m.protocol.isFeedbackFrame frame m.motorId := accepted_priv_congr hp rfl
  obtain ⟨r', hr', hpriv'⟩ := reading_priv hp (hacc'.trans hacc)
  obtain ⟨r'', hr'', hne⟩ := ProtocolPrivate.reading_touchLast hpriv m.initialVars.status
  obtain rfl : r' = r'' := Option.some.inj (hpriv'.symm.trans hr'')
  have hstatus := congrArg MotorVars.status h
  rw [processFrameAlone_status rfl, processFrameAlone_status rfl, hr, hr'] at hstatus
  exact hne true hstatus.symm

/-- **The declared length** of a frame bounds what a motor reads of it exactly where the motor is an
MIT motor, the frame declares all its bytes, or the motor does not accept it. -/
theorem lengthRespected_iff (m : Motor) (f : CanFrame) :
    (∀ g, AgreeToLength f g → ∀ v, m.processFrameAlone f v = m.processFrameAlone g v) ↔
      m.protocolType = .mit ∨ 8 ≤ f.canDlc.toNat ∨
        m.protocol.isFeedbackFrame f m.motorId = false := by
  constructor
  · intro hsame
    cases hp : m.protocolType with
    | mit => exact Or.inl rfl
    | priv =>
        right
        by_cases hdlc : 8 ≤ f.canDlc.toNat
        · exact Or.inl hdlc
        · refine Or.inr (Bool.eq_false_iff.mpr fun hacc => ?_)
          exact private_reads_last hp hacc (hsame _ (agree_touchLast (Nat.lt_of_not_le hdlc)) _)
  · intro h g hagree v
    by_cases hdlc : 8 ≤ f.canDlc.toNat
    · rw [hagree.eq hdlc]
    · -- Only a frame that both filters refuse is left.
      have hdlc := Nat.lt_of_not_le hdlc
      have hrefused : m.protocol.isFeedbackFrame f m.motorId = false ∧
          m.protocol.isFeedbackFrame g m.motorId = false := by
        cases hp : m.protocolType with
        | mit => exact ⟨mit_refuses_short hp hdlc, mit_refuses_short hp (hagree.canDlc ▸ hdlc)⟩
        | priv =>
            have hacc : m.protocol.isFeedbackFrame f m.motorId = false := by
              rcases h with h | h | h
              · rw [hp] at h
                cases h
              · omega
              · exact h
            exact ⟨hacc, (accepted_priv_congr hp hagree.canId).symm.trans hacc⟩
      rw [processFrameAlone_eq_self hrefused.1, processFrameAlone_eq_self hrefused.2]

/-- Two parameter replies that declare two bytes, as a buffer reused between frames leaves them:
the motor reports two values. -/
theorem short_reply_read :
    AgreeToLength ⟨0x91000100, 2, #v[6, 0x70, 0, 0, 0, 0, 0, 0]⟩
        ⟨0x91000100, 2, #v[6, 0x70, 0, 0, 1, 0, 0, 0]⟩ ∧
      ∃ v, (Motor.sample .priv).processFrameAlone
          ⟨0x91000100, 2, #v[6, 0x70, 0, 0, 0, 0, 0, 0]⟩ v ≠
        (Motor.sample .priv).processFrameAlone
          ⟨0x91000100, 2, #v[6, 0x70, 0, 0, 1, 0, 0, 0]⟩ v := by
  refine ⟨⟨rfl, rfl, by decide⟩, (Motor.sample .priv).initialVars, by decide⟩

/-! ### The status after any frames -/

/-- The fields of a motor; the status carries the motor's own id. -/
structure Motor.OwnVars (m : Motor) where
  vars : MotorVars
  own : vars.status.motorId = m.motorId

/-- The fields as constructed. -/
def Motor.OwnVars.initial (m : Motor) : m.OwnVars := ⟨m.initialVars, rfl⟩

/-- A frame leaves the id alone. -/
theorem processFrameAlone_own (hown : v.status.motorId = m.motorId) :
    (m.processFrameAlone frame v).status.motorId = m.motorId := by
  rw [processFrameAlone_status hown]
  cases m.reading frame with
  | some r => exact (r.apply_motorId v.status).trans hown
  | none =>
      by_cases hacc : m.protocol.isFeedbackFrame frame m.motorId = true
      · simp only [if_pos hacc]
        exact hown
      · simp only [if_neg hacc]
        exact hown

/-- `process_frame`. -/
def Motor.OwnVars.process (s : m.OwnVars) (frame : CanFrame) : m.OwnVars where
  vars := m.processFrameAlone frame s.vars
  own := processFrameAlone_own s.own

/-- The fields after the frames, from the constructed ones. -/
def Motor.after (m : Motor) (frames : List CanFrame) : m.OwnVars :=
  frames.foldl Motor.OwnVars.process (.initial m)

/-- The fields that telemetry writes. -/
def MotorStatus.telemetry (status : MotorStatus) : Telemetry where
  state := status.state
  angle := status.angle
  velocity := status.velocity
  torque := status.torque
  temperature := status.temperature

/-- A status is its parts. -/
theorem MotorStatus.eq_of_parts {s s' : MotorStatus} (hid : s.motorId = s'.motorId)
    (hconnected : s.isConnected = s'.isConnected) (htelemetry : s.telemetry = s'.telemetry)
    (herrorMask : s.errorMask = s'.errorMask)
    (hparam : (s.readParamIndex, s.readParamPayload) = (s'.readParamIndex, s'.readParamPayload))
    (hmcu : s.mcuId = s'.mcuId)
    (hfault : (s.faultValue, s.warningValue) = (s'.faultValue, s'.warningValue))
    (hunknown : s.unknownFrameCount = s'.unknownFrameCount) : s = s' := by
  cases s
  cases s'
  cases hid
  cases hconnected
  cases htelemetry
  cases herrorMask
  cases hparam
  cases hmcu
  cases hfault
  cases hunknown
  rfl

/-- The telemetry in a reading, if it is one. -/
def Reading.telemetry? : Reading → Option Telemetry
  | telemetry t _ => some t
  | _ => none

/-- The error mask that comes with it, if one does. -/
def Reading.errorMask? : Reading → Option Byte
  | telemetry _ errorMask => errorMask
  | _ => none

/-- The parameter in a reading, if it is one. -/
def Reading.param? : Reading → Option (BitVec 16 × BitVec 32)
  | param index payload => some (index, payload)
  | _ => none

/-- The MCU id in a reading, if it is one. -/
def Reading.mcu? : Reading → Option (BitVec 64)
  | mcu mcuId => some mcuId
  | _ => none

/-- The fault and warning words in a reading, if it is one. -/
def Reading.fault? : Reading → Option (BitVec 32 × BitVec 32)
  | fault faultValue warningValue => some (faultValue, warningValue)
  | _ => none

/-- What becomes of a frame. -/
inductive Intake where
  | foreign
  | refused
  | parsed (b : Branch)
  deriving DecidableEq

/-- What becomes of a frame. -/
def Motor.intake (m : Motor) (frame : CanFrame) : Intake :=
  match m.reading frame with
  | some r => .parsed r.branch
  | none => if m.protocol.isFeedbackFrame frame m.motorId then .refused else .foreign

theorem intake_of_reading {r : Reading} (hr : m.reading frame = some r) :
    m.intake frame = .parsed r.branch := by
  unfold Motor.intake
  rw [hr]

/-- The parser refuses a frame that the filter accepts. -/
theorem intake_eq_refused : m.intake frame = .refused ↔
    m.protocol.isFeedbackFrame frame m.motorId = true ∧ m.reading frame = none := by
  unfold Motor.intake
  cases m.reading frame with
  | some r => exact iff_of_false nofun fun h => by cases h.2
  | none =>
      by_cases hacc : m.protocol.isFeedbackFrame frame m.motorId = true
      · simp only [hacc, if_true, and_self]
      · rw [if_neg hacc]
        exact iff_of_false nofun fun h => hacc h.1

/-- A frame changes the status as its intake says. -/
theorem process_status (s : m.OwnVars) (frame : CanFrame) :
    (s.process frame).vars.status =
      match m.reading frame with
      | some r => { r.apply s.vars.status with isConnected := true }
      | none =>
          if m.intake frame = .refused then
            { s.vars.status with unknownFrameCount := s.vars.status.unknownFrameCount + 1 }
          else s.vars.status := by
  unfold Motor.intake
  refine (processFrameAlone_status s.own).trans ?_
  cases m.reading frame with
  | some r => rfl
  | none =>
      by_cases hacc : m.protocol.isFeedbackFrame frame m.motorId = true
      · simp only [if_pos hacc, if_true]
      · simp only [if_neg hacc]
        rfl

/-- A part of the status that the branches overwrite with what `field` reads off them. -/
def Motor.register {V : Type} (m : Motor) (get : MotorStatus → V) (field : Reading → Option V)
    (hget : ∀ r status, get (r.apply status) = (field r).getD (get status))
    (hrest : ∀ status connected count, get { status with
      isConnected := connected, unknownFrameCount := count } = get status) :
    Register (Motor.OwnVars.process (m := m)) V where
  get s := get s.vars.status
  write frame := (m.reading frame).bind field
  get_step s frame := by
    rw [process_status]
    cases m.reading frame with
    | some r => exact (hrest _ _ _).trans (hget r _)
    | none =>
        by_cases h : m.intake frame = .refused
        · simp only [if_pos h]
          exact hrest _ _ _
        · simp only [if_neg h]
          rfl

namespace Motor

variable (m)

/-- The motion in the status: the last telemetry parsed. -/
def telemetryRegister : Register (OwnVars.process (m := m)) Telemetry :=
  m.register MotorStatus.telemetry Reading.telemetry? (fun r _ => by cases r <;> rfl)
    fun _ _ _ => rfl

/-- The error mask in the status: the last that came with telemetry. -/
def errorMaskRegister : Register (OwnVars.process (m := m)) Byte :=
  m.register MotorStatus.errorMask Reading.errorMask? (fun r _ => by cases r <;> rfl)
    fun _ _ _ => rfl

/-- The parameter pair in the status: the last parameter reply. -/
def paramRegister : Register (OwnVars.process (m := m)) (BitVec 16 × BitVec 32) :=
  m.register (fun status => (status.readParamIndex, status.readParamPayload)) Reading.param?
    (fun r _ => by cases r <;> rfl) fun _ _ _ => rfl

/-- The MCU id in the status: the last identification. -/
def mcuRegister : Register (OwnVars.process (m := m)) (BitVec 64) :=
  m.register MotorStatus.mcuId Reading.mcu? (fun r _ => by cases r <;> rfl) fun _ _ _ => rfl

/-- The fault words in the status: the last fault report. -/
def faultRegister : Register (OwnVars.process (m := m)) (BitVec 32 × BitVec 32) :=
  m.register (fun status => (status.faultValue, status.warningValue)) Reading.fault?
    (fun r _ => by cases r <;> rfl) fun _ _ _ => rfl

/-- Every parsed frame sets `is_connected`. -/
def connectedRegister : Register (OwnVars.process (m := m)) Bool where
  get s := s.vars.status.isConnected
  write frame := (m.reading frame).map fun _ => true
  get_step s frame := by
    rw [process_status]
    cases m.reading frame with
    | some r => rfl
    | none =>
        by_cases h : m.intake frame = .refused
        · simp only [if_pos h]
          rfl
        · simp only [if_neg h]
          rfl

/-- Every refused frame is counted. -/
def unknownFrames : Tally (OwnVars.process (m := m)) 32 where
  get s := s.vars.status.unknownFrameCount
  counts frame := m.intake frame = .refused
  get_step s frame := by
    rw [process_status]
    cases hr : m.reading frame with
    | some r =>
        have hne : m.intake frame ≠ .refused := by
          rw [intake_of_reading hr]
          exact nofun
        simp only [decide_eq_false hne, Bool.false_eq_true, if_false]
        cases r <;> rfl
    | none =>
        by_cases h : m.intake frame = .refused
        · simp only [if_pos h, decide_eq_true h, if_true]
        · simp only [if_neg h, decide_eq_false h, Bool.false_eq_true, if_false]

end Motor

/-- What `field` reads off the last frame that brings it, or what the field held at first. -/
def Motor.last {V : Type} (m : Motor) (field : Reading → Option V) (frames : List CanFrame)
    (first : V) : V :=
  (frames.filterMap fun frame => (m.reading frame).bind field).getLast?.getD first

/-- The status that the frames leave. -/
structure StatusAfter (m : Motor) (frames : List CanFrame) (status : MotorStatus) : Prop where
  motorId : status.motorId = m.motorId
  isConnected : status.isConnected = true ↔ ∃ frame ∈ frames, (m.reading frame).isSome = true
  telemetry : status.telemetry =
    m.last Reading.telemetry? frames (MotorStatus.initial m.motorId).telemetry
  errorMask : status.errorMask = m.last Reading.errorMask? frames 0
  param : (status.readParamIndex, status.readParamPayload) = m.last Reading.param? frames (0, 0)
  mcuId : status.mcuId = m.last Reading.mcu? frames 0
  fault : (status.faultValue, status.warningValue) = m.last Reading.fault? frames (0, 0)
  unknownFrameCount : status.unknownFrameCount =
    BitVec.ofNat 32 (frames.countP fun frame => m.intake frame = .refused)

theorem after_isConnected (m : Motor) (frames : List CanFrame) :
    (m.after frames).vars.status.isConnected = true ↔
      ∃ frame ∈ frames, (m.reading frame).isSome = true := by
  have hrun : (m.after frames).vars.status.isConnected =
      (frames.filterMap m.connectedRegister.write).getLast?.getD false :=
    m.connectedRegister.get_run (.initial m) frames
  rw [hrun]
  constructor
  · intro h
    cases hlast : (frames.filterMap m.connectedRegister.write).getLast? with
    | none =>
        rw [hlast] at h
        cases h
    | some b =>
        obtain ⟨frame, hmem, hwrite⟩ := List.mem_filterMap.mp (List.mem_of_getLast? hlast)
        obtain ⟨r, hr, -⟩ := Option.map_eq_some_iff.mp hwrite
        exact ⟨frame, hmem, Option.isSome_iff_exists.mpr ⟨r, hr⟩⟩
  · rintro ⟨frame, hmem, hsome⟩
    obtain ⟨r, hr⟩ := Option.isSome_iff_exists.mp hsome
    have hwrite : m.connectedRegister.write frame = some true := by
      change (m.reading frame).map (fun _ => true) = some true
      rw [hr, Option.map_some]
    -- The last write is some frame's, and every write is `true`.
    cases hlast : (frames.filterMap m.connectedRegister.write).getLast? with
    | none =>
        rw [List.getLast?_eq_none_iff] at hlast
        have htrue := List.mem_filterMap.mpr ⟨frame, hmem, hwrite⟩
        rw [hlast] at htrue
        cases htrue
    | some b =>
        obtain ⟨frame', -, hwrite'⟩ := List.mem_filterMap.mp (List.mem_of_getLast? hlast)
        obtain ⟨-, -, rfl⟩ := Option.map_eq_some_iff.mp hwrite'
        rfl

theorem after_status (m : Motor) (frames : List CanFrame) :
    StatusAfter m frames (m.after frames).vars.status where
  motorId := (m.after frames).own
  isConnected := after_isConnected m frames
  telemetry := m.telemetryRegister.get_run (.initial m) frames
  errorMask := m.errorMaskRegister.get_run (.initial m) frames
  param := m.paramRegister.get_run (.initial m) frames
  mcuId := m.mcuRegister.get_run (.initial m) frames
  fault := m.faultRegister.get_run (.initial m) frames
  unknownFrameCount := (m.unknownFrames.get_run (.initial m) frames).trans (BitVec.zero_add _)

/-- What one branch brings, only its frames bring. -/
theorem bind_eq_none {V : Type} {field : Reading → Option V} {b : Branch}
    (hfield : ∀ r : Reading, r.branch ≠ b → field r = none) (frame : CanFrame)
    (h : m.intake frame ≠ .parsed b) : (m.reading frame).bind field = none := by
  cases hr : m.reading frame with
  | none => rfl
  | some r =>
      rw [intake_of_reading hr] at h
      exact hfield r fun hb => h (congrArg Intake.parsed hb)

/-- Frames taken in different ways can change places. -/
theorem after_congr {frames frames' : List CanFrame} (h : SameByClass m.intake frames frames') :
    (m.after frames).vars.status = (m.after frames').vars.status := by
  have htelemetry := m.telemetryRegister.get_run_congr h (.parsed .telemetry)
    (bind_eq_none fun r hr => by cases r <;> first | rfl | exact absurd rfl hr) (.initial m)
  have herrorMask := m.errorMaskRegister.get_run_congr h (.parsed .telemetry)
    (bind_eq_none fun r hr => by cases r <;> first | rfl | exact absurd rfl hr) (.initial m)
  have hparam := m.paramRegister.get_run_congr h (.parsed .param)
    (bind_eq_none fun r hr => by cases r <;> first | rfl | exact absurd rfl hr) (.initial m)
  have hmcu := m.mcuRegister.get_run_congr h (.parsed .mcu)
    (bind_eq_none fun r hr => by cases r <;> first | rfl | exact absurd rfl hr) (.initial m)
  have hfault := m.faultRegister.get_run_congr h (.parsed .fault)
    (bind_eq_none fun r hr => by cases r <;> first | rfl | exact absurd rfl hr) (.initial m)
  have hunknown := m.unknownFrames.get_run_congr h .refused (fun _ => rfl) (.initial m)
  have hconnected : (m.after frames).vars.status.isConnected =
      (m.after frames').vars.status.isConnected := by
    rw [Bool.eq_iff_iff, after_isConnected, after_isConnected]
    simp only [h.mem_iff]
  have hid := (m.after frames).own.trans (m.after frames').own.symm
  exact MotorStatus.eq_of_parts hid hconnected htelemetry herrorMask hparam hmcu hfault hunknown

/-- Two neighbours taken in different ways can change places. -/
theorem after_swap {f g : CanFrame} (h : m.intake f ≠ m.intake g) (before after : List CanFrame) :
    (m.after (before ++ f :: g :: after)).vars.status =
      (m.after (before ++ g :: f :: after)).vars.status :=
  after_congr (Support.sameByClass_swap h before after)

/-- **The status after any frames**: what the last frame of each branch brought.  A refused frame is
only counted, and frames taken in different ways can change places. -/
theorem status_after (m : Motor) :
    (∀ frame (status : MotorStatus), status.motorId = m.motorId →
      m.protocol.isFeedbackFrame frame m.motorId = true →
        m.protocol.parseFeedback frame status m.profile =
          (m.reading frame).map fun r => r.apply status) ∧
    (∀ frames, StatusAfter m frames (m.after frames).vars.status) ∧
    (∀ (s : m.OwnVars) frame, m.intake frame = .refused →
      (s.process frame).vars = { s.vars with status :=
        { s.vars.status with unknownFrameCount := s.vars.status.unknownFrameCount + 1 } }) ∧
    (∀ frames frames', SameByClass m.intake frames frames' →
      (m.after frames).vars.status = (m.after frames').vars.status) := by
  refine ⟨fun frame status hown hacc => parseFeedback_of_own hacc hown, after_status m,
    fun s frame h => ?_, fun frames frames' h => after_congr h⟩
  obtain ⟨hacc, hr⟩ := intake_eq_refused.mp h
  have hparse := parseFeedback_of_own hacc s.own
  rw [hr] at hparse
  exact processFrameAlone_rejected hacc hparse

end Robstride
