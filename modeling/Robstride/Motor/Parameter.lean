import Mathlib.Tactic.FinCases
import Robstride.Motor.Frames
import Robstride.Motor.Programs
import Robstride.Protocol.Fields
import Robstride.Sdk.Parameter

/-!
# Motor — Parameters written and read back

The writer puts a parameter's id and value into the payload byte by byte, the least significant
first; the parsers take them out through big-endian unpackers, the last byte first.  Both sides
follow the bytes of the objects (`putParam_index`, `putParam_value`, `rsUnpackUint16_eq`,
`rsUnpackUint32_eq`).  So a reply that carries a written payload is read as what was written, and
`read_parameter<T>` returns what `write_parameter<T>` sent (`parameter_codec`).
-/

namespace Robstride

open Support Support.Prog

variable {m : Motor} {frame : CanFrame}

/-! ### The bytes of a parameter -/

/-- The payload of `encode_write_param`. -/
def putParam (id : BitVec 16) (payload : BitVec 32) : Payload :=
  rsHwPutLe32 (rsHwPutLe16 zeroPayload 0 id) 4 payload

/-- The bytes where a payload has the id. -/
def Payload.indexBytes (data : Payload) (i : Fin 2) : Byte := data.byte (Fin.castAdd 6 i)

/-- The bytes where a payload has the value. -/
def Payload.valueBytes (data : Payload) (i : Fin 4) : Byte := data.byte (Fin.natAdd 4 i)

theorem encodeWriteParam_data (m : Motor) (id : BitVec 16) (payload : BitVec 32) :
    (m.protocol.encodeWriteParam m.motorId m.hostId id payload).data = putParam id payload := by
  unfold Motor.protocol
  cases m.protocolType <;> rfl

theorem low_byte {w : ℕ} (v : BitVec w) : (v &&& 0xFF).setWidth 8 = v.setWidth 8 := by
  refine BitVec.eq_of_getLsbD_eq fun j hj => ?_
  have hmask : Nat.testBit 255 j = true := by
    rw [show 255 = 2 ^ 8 - 1 from rfl, Nat.testBit_two_pow_sub_one]
    exact decide_eq_true hj
  simpa [hj, BitVec.getLsbD_ofNat, hmask] using BitVec.lt_of_getLsbD

theorem shifted_byte {w : ℕ} (v : BitVec w) (k : ℕ) :
    (v >>> k).setWidth 8 = v.extractLsb' k 8 := by
  ext j hj
  simp

theorem putParam_index (id : BitVec 16) (payload : BitVec 32) :
    (putParam id payload).indexBytes = toBytes (n := 2) id := by
  funext i
  fin_cases i
  · exact (low_byte id).trans (shifted_byte id 0)
  · exact shifted_byte id 8

theorem putParam_value (id : BitVec 16) (payload : BitVec 32) :
    (putParam id payload).valueBytes = toBytes (n := 4) payload := by
  funext i
  fin_cases i
  · exact (low_byte payload).trans (shifted_byte payload 0)
  · exact (low_byte (payload >>> 8)).trans (shifted_byte payload 8)
  · exact (low_byte (payload >>> 16)).trans (shifted_byte payload 16)
  · exact shifted_byte payload 24

theorem rsUnpackUint16_eq (b : Fin 2 → Byte) :
    rsUnpackUint16 (b 1) (b 0) = ofBytes (n := 2) b := by
  refine toBytes_injective (n := 2) fun i => ?_
  rw [toBytes_ofBytes]
  unfold toBytes rsUnpackUint16
  ext j hj
  fin_cases i <;> interval_cases j <;> simp

theorem rsUnpackUint32_eq (b : Fin 4 → Byte) :
    rsUnpackUint32 (b 3) (b 2) (b 1) (b 0) = ofBytes (n := 4) b := by
  refine toBytes_injective (n := 4) fun i => ?_
  rw [toBytes_ofBytes]
  unfold toBytes rsUnpackUint32
  ext j hj
  fin_cases i <;> interval_cases j <;> simp

/-! ### Parameter replies -/

/-- A reply of type 17 with the motor's id. -/
def ProtocolPrivate.IsParamReply (frame : CanFrame) (motorId : Byte) : Prop :=
  ProtocolPrivate.Addressed frame motorId ∧
    FrameType.ofByte (rsGetMsgType (frame.canId &&& canEffMask)) = .readParam

/-- A full frame of mode 3 or 4 with the motor's id. -/
def ProtocolMIT.IsParamReply (frame : CanFrame) (motorId : Byte) : Prop :=
  frame.canId &&& canEffFlag = 0 ∧ ¬ frame.canDlc < 8 ∧ (mode frame = 3 ∨ mode frame = 4) ∧
    rxId frame = motorId

namespace Motor

/-- The frame answers a parameter access of the motor. -/
def IsParamReply (m : Motor) (frame : CanFrame) : Prop :=
  match m.protocolType with
  | .priv => ProtocolPrivate.IsParamReply frame m.motorId
  | .mit => ProtocolMIT.IsParamReply frame m.motorId

/-- The motor takes the frame as the parameter `id` with value `payload`. -/
structure ReadsParam (m : Motor) (frame : CanFrame) (id : BitVec 16) (payload : BitVec 32) :
    Prop where
  accepted : m.protocol.isFeedbackFrame frame m.motorId = true
  type : m.protocol.getResponseType frame = .readParam
  parsed : ∀ status : MotorStatus, status.motorId = m.motorId → ∃ status',
    m.protocol.parseFeedback frame status m.profile = some status' ∧
      status'.readParamIndex = id ∧ status'.readParamPayload = payload

/-- A run of `write_parameter<T>` transmits the frame. -/
def Sends (m : Motor) (T : ParamType) (param : TypedParam) (value : T.Value) (sent : CanFrame) :
    Prop :=
  ∃ tr p fn r, After (m.writeParameterAs T param value) tr p ∧ ⟨.transmit fn sent, r⟩ ∈ tr

/-- What `read_parameter_raw` copies out of the status. -/
def OwnVars.param (s : m.OwnVars) : BitVec 16 × BitVec 32 :=
  (s.vars.status.readParamIndex, s.vars.status.readParamPayload)

/-- Where the reply is processed before `read_parameter<T>` looks at the status, it returns the
value. -/
structure ReadsBack (m : Motor) (T : ParamType) (param : TypedParam) (reply : CanFrame)
    (value : T.Value) : Prop where
  returns : ∀ (s : m.OwnVars) (indeterminate : T.Value) (tr : CmdTrace) (x : Option T.Value),
    After (m.readParameterAs T indeterminate param) tr (.ret x) →
      ⟨.readParam, (s.process reply).param⟩ ∈ tr → x = some value
  possible : ∀ (s : m.OwnVars) (indeterminate : T.Value), ∃ tr,
    After (m.readParameterAs T indeterminate param) tr (.ret (some value)) ∧
      ⟨.readParam, (s.process reply).param⟩ ∈ tr

end Motor

/-- What is written to a parameter is what a reply that carries it back is read as. -/
structure ParameterCodec (m : Motor) : Prop where
  /-- Any data may come in a parameter reply of the motor. -/
  replies : ∀ data : Payload, ∃ reply, m.IsParamReply reply ∧ reply.data = data
  reads : ∀ frame id payload, m.IsParamReply frame →
    frame.data = (m.protocol.encodeWriteParam m.motorId m.hostId id payload).data →
      m.ReadsParam frame id payload
  /-- `write_parameter<T>` has a frame to send for every value. -/
  sends : ∀ (T : ParamType) (param : TypedParam) (value : T.Value),
    ∃ sent, m.Sends T param value sent
  /-- Where `write_parameter<T>` returned `SUCCESS`, a frame went out. -/
  written : ∀ (T : ParamType) (param : TypedParam) (value : T.Value) (tr : CmdTrace),
    After (m.writeParameterAs T param value) tr (.ret .success) →
      ∃ fn sent, ⟨.transmit fn sent, .success⟩ ∈ tr
  /-- The bytes of the reply beyond those of the value may be any. -/
  typed : ∀ (T : ParamType) (param : TypedParam) (value : T.Value) (sent reply : CanFrame),
    m.Sends T param value sent → m.IsParamReply reply →
      (∀ i : Fin 8, i.val < 2 ∨ 4 ≤ i.val ∧ i.val < 4 + T.size →
        reply.data.byte i = sent.data.byte i) →
        m.ReadsBack T param reply value

/-- The motor's id in the data area, as the motor answers. -/
theorem ProtocolPrivate.exists_isParamReply (motorId : Byte) (data : Payload) :
    ∃ reply, ProtocolPrivate.IsParamReply reply motorId ∧ reply.data = data := by
  refine ⟨⟨rsHwPackCanId .readParam 0 (motorId.setWidth 16), 8, data⟩, ⟨⟨?_, ?_⟩, ?_⟩, rfl⟩
  · exact extended_pack .readParam 0 (motorId.setWidth 16)
  · rw [rsGetMotorId_pack]
    exact BitVec.setWidth_setWidth_of_le motorId (by decide)
  · rw [rsGetMsgType_pack]
    rfl

/-- Mode 3 and the motor's id, as a read is answered. -/
theorem ProtocolMIT.exists_isParamReply (motorId : Byte) (data : Payload) :
    ∃ reply, ProtocolMIT.IsParamReply reply motorId ∧ reply.data = data := by
  have hfull : ¬ (8 : Byte) < 8 := by decide
  exact ⟨⟨((3 : Byte).setWidth 32 <<< 8) ||| motorId.setWidth 32, 8, data⟩,
    ⟨effFlag_param (.inl rfl) motorId, hfull, .inl (mode_param (.inl rfl) motorId 8 data),
      rxId_param (.inl rfl) motorId 8 data⟩, rfl⟩

/-- Any data may come in a parameter reply. -/
theorem exists_isParamReply (m : Motor) (data : Payload) :
    ∃ reply, m.IsParamReply reply ∧ reply.data = data := by
  unfold Motor.IsParamReply
  cases m.protocolType with
  | priv => exact ProtocolPrivate.exists_isParamReply m.motorId data
  | mit => exact ProtocolMIT.exists_isParamReply m.motorId data

theorem ProtocolPrivate.IsParamReply.reading {motorId : Byte}
    (h : ProtocolPrivate.IsParamReply frame motorId) (profile : MotorProfile) :
    ProtocolPrivate.reading frame profile =
      some (.param (ofBytes frame.data.indexBytes) (ofBytes frame.data.valueBytes)) := by
  rw [← rsUnpackUint16_eq, ← rsUnpackUint32_eq]
  simp only [ProtocolPrivate.reading, h.2]
  rfl

theorem ProtocolMIT.IsParamReply.reading {motorId : Byte}
    (h : ProtocolMIT.IsParamReply frame motorId) (profile : MotorProfile) :
    ProtocolMIT.reading frame motorId profile =
      some (.param (ofBytes frame.data.indexBytes) (ofBytes frame.data.valueBytes)) := by
  obtain ⟨-, -, hmode, hrx⟩ := h
  have hne : mode frame ≠ 0 := by
    rcases hmode with h | h <;> rw [h] <;> decide
  rw [← rsUnpackUint16_eq, ← rsUnpackUint32_eq]
  simp only [ProtocolMIT.reading, hne, hmode, hrx, false_and, if_false, and_self, if_true]
  rfl

theorem ProtocolMIT.IsParamReply.accepted {motorId : Byte}
    (h : ProtocolMIT.IsParamReply frame motorId) :
    ProtocolMIT.isFeedbackFrame frame motorId = true := by
  obtain ⟨hflag, hdlc, -, hrx⟩ := h
  exact ProtocolMIT.isFeedbackFrame_iff.mpr ⟨⟨hflag, Or.inl hrx⟩, hdlc⟩

/-- A parameter reply is decoded from its bytes, as the objects that they are. -/
theorem Motor.IsParamReply.reading (h : m.IsParamReply frame) :
    m.reading frame =
      some (.param (ofBytes frame.data.indexBytes) (ofBytes frame.data.valueBytes)) := by
  unfold Motor.IsParamReply at h
  unfold Motor.reading Motor.protocol
  cases hp : m.protocolType with
  | priv =>
      rw [hp] at h
      have hreading := h.reading m.profile
      have hacc : ProtocolPrivate.isFeedbackFrame frame m.motorId = true :=
        (ProtocolPrivate.isFeedbackFrame_iff m.profile).mpr ⟨h.1.1, h.1.2, by rw [hreading]; rfl⟩
      exact (if_pos hacc).trans hreading
  | mit =>
      rw [hp] at h
      exact (if_pos h.accepted).trans (h.reading m.profile)

/-- A parameter reply is no MIT identification, so its type is that of its branch. -/
theorem Motor.IsParamReply.type (h : m.IsParamReply frame) :
    m.protocol.getResponseType frame = .readParam := by
  refine (getResponseType_iff h.reading).mpr ?_
  rintro ⟨hmit, hmode, -⟩
  unfold Motor.IsParamReply at h
  rw [hmit] at h
  rcases h.2.2.1 with h | h <;> rw [h] at hmode <;> exact absurd hmode (by decide)

/-- What a parameter reply leaves in the status. -/
theorem Motor.IsParamReply.process (h : m.IsParamReply frame) (s : m.OwnVars) :
    (s.process frame).param = (ofBytes frame.data.indexBytes, ofBytes frame.data.valueBytes) := by
  unfold Motor.OwnVars.param
  rw [process_status, h.reading]
  rfl

theorem readsParam_of_data (h : m.IsParamReply frame) {id : BitVec 16} {payload : BitVec 32}
    (hdata : frame.data = putParam id payload) : m.ReadsParam frame id payload := by
  have hreading := h.reading
  rw [hdata, putParam_index, putParam_value, ofBytes_toBytes, ofBytes_toBytes] at hreading
  have hacc := accepted_of_reading hreading
  refine ⟨hacc, h.type, fun status hown => ?_⟩
  rw [parseFeedback_of_own hacc hown, hreading]
  exact ⟨_, rfl, rfl, rfl⟩

/-! ### Typed parameters -/

section

variable {T : ParamType} {param : TypedParam} {value indeterminate : T.Value}

/-- `write_parameter_raw` transmits no other frame. -/
theorem writeParameterRaw_transmits (m : Motor) (paramId : BitVec 16) (rawPayload : BitVec 32) :
    (m.writeParameterRaw paramId rawPayload).All fun a => ∀ fn sent, a = .transmit fn sent →
      sent = m.protocol.encodeWriteParam m.motorId m.hostId paramId rawPayload := by
  refine .bind (.perform nofun) fun _ => .bind (.bind (.perform nofun) fun _ =>
    .bind (.bind (.perform nofun) fun connected => ?_) fun _ => .bind (.perform nofun) fun _ =>
      trivial) fun _ => .bind (.perform nofun) fun _ => trivial
  split_ifs
  · refine .perform ?_
    rintro fn sent ⟨⟩
    rfl
  · trivial

/-- `write_parameter<T>` sends the copy of its value. -/
theorem sends_iff {sent : CanFrame} : m.Sends T param value sent ↔
    sent = m.protocol.encodeWriteParam m.motorId m.hostId param.id (T.toRaw value) := by
  constructor
  · rintro ⟨tr, p, fn, r, hafter, hmem⟩
    have hall := writeParameterRaw_transmits m param.id (T.toRaw value)
    exact hall.of_mem hafter _ hmem fn sent rfl
  · rintro rfl
    refine ⟨[⟨.enter .writeParameterRaw, ()⟩, ⟨.lockCommand, ()⟩, ⟨.isConnected, true⟩,
      ⟨.transmit .writeParameterRaw _, .success⟩], _, .writeParameterRaw, .success,
      .cons (.cons (.cons (.cons (.nil _)))), ?_⟩
    simp

/-- `write_parameter_raw` returns `SUCCESS` where the transport did for its frame. -/
theorem writeParameterRaw_success {paramId : BitVec 16} {rawPayload : BitVec 32} {tr : CmdTrace}
    (h : After (m.writeParameterRaw paramId rawPayload) tr (.ret .success)) :
    ∃ sent, ⟨.transmit .writeParameterRaw sent, .success⟩ ∈ tr := by
  obtain ⟨tr₁, ⟨⟩, tr₂, rfl, -, h⟩ := after_bind_ret h
  obtain ⟨tr₃, r, tr₄, rfl, hlocked, h⟩ := after_bind_ret h
  obtain ⟨tr₅, ⟨⟩, tr₆, rfl, -, h⟩ := after_bind_ret h
  obtain ⟨rfl, rfl⟩ := after_ret h
  obtain ⟨tr, rfl, hbody⟩ := withCommandMutex_trace hlocked
  obtain ⟨tr₇, connected, tr₈, rfl, -, hsend⟩ := after_bind_ret hbody
  cases connected with
  | false =>
      obtain ⟨-, hfailed⟩ := after_ret hsend
      cases hfailed
  | true =>
      have htransmit := after_perform hsend
      exact ⟨m.protocol.encodeWriteParam m.motorId m.hostId paramId rawPayload, by simp [htransmit]⟩

/-- `read_parameter<T>` that looks at its own parameter returns a copy of what it saw. -/
theorem readParameterAs_ret {tr : CmdTrace} {x : Option T.Value} {payload : BitVec 32}
    (h : After (m.readParameterAs T indeterminate param) tr (.ret x))
    (hread : ⟨.readParam, (param.id, payload)⟩ ∈ tr) :
    x = some (T.ofRaw indeterminate payload) := by
  obtain ⟨tr₁, rawOpt, tr₂, rfl, hraw, hret⟩ := after_bind_ret h
  obtain ⟨rfl, rfl⟩ := after_ret hret
  rw [readParameterRaw_eq] at hraw
  obtain ⟨tr₃, ⟨⟩, tr₄, rfl, henter, hraw⟩ := after_bind_ret hraw
  obtain ⟨tr₅, value, tr₆, rfl, hlocked, hraw⟩ := after_bind_ret hraw
  obtain ⟨tr₇, ⟨⟩, tr₈, rfl, hleave, hraw⟩ := after_bind_ret hraw
  obtain ⟨rfl, rfl⟩ := after_ret hraw
  obtain rfl := after_perform henter
  obtain rfl := after_perform hleave
  obtain ⟨tr', rfl, hbody⟩ := withCommandMutex_trace hlocked
  have hbodyRead : ⟨.readParam, (param.id, payload)⟩ ∈ tr' := by simpa using hread
  rcases readBody_ret hbody with ⟨-, hnever⟩ | ⟨frame, tr'', check, index, payload', htr'', hcheck,
    rfl, rfl⟩
  · exact absurd hbodyRead (hnever _)
  · have hsame : param.id = index ∧ payload = payload' := by
      cases htr'' <;> cases hcheck <;> simpa using hbodyRead
    obtain ⟨rfl, rfl⟩ := hsame
    rw [if_pos rfl]
    rfl

/-- A run of `read_parameter<T>` in time. -/
theorem readParameterAs_run (m : Motor) (indeterminate : T.Value) (param : TypedParam)
    (payload : BitVec 32) : ∃ tr, After (m.readParameterAs T indeterminate param) tr
        (.ret (some (T.ofRaw indeterminate payload))) ∧
      ⟨.readParam, (param.id, payload)⟩ ∈ tr := by
  have hrun : After (m.readParameterAs T indeterminate param)
      [⟨.enter (.readParameterRaw param.id), ()⟩, ⟨.lockCommand, ()⟩, ⟨.isConnected, true⟩,
        ⟨.lockMotor, ()⟩, ⟨.prepare (.readParameterRaw param.id) .readParam, ()⟩,
        ⟨.unlockMotor, ()⟩, ⟨.transmit (.readParameterRaw param.id) _, .success⟩,
        ⟨.lockMotor, ()⟩, ⟨.startWait 100, true⟩, ⟨.unlockMotor, ()⟩, ⟨.lockMotor, ()⟩,
        ⟨.readParam, (param.id, payload)⟩, ⟨.unlockMotor, ()⟩, ⟨.unlockCommand, ()⟩,
        ⟨.leave (.readParameterRaw param.id) (.value _), ()⟩]
      (.ret ((if param.id = param.id then some payload else none).map (T.ofRaw indeterminate))) :=
    .cons (.cons (.cons (.cons (.cons (.cons (.cons (.cons (.cons (.cons (.cons (.cons (.cons
      (.cons (.cons (.nil _)))))))))))))))
  rw [if_pos rfl] at hrun
  exact ⟨_, hrun, by simp⟩

/-- The word that a reply leaves begins with the bytes of the value, and is read as the value. -/
theorem readsBack_of_bytes {reply : CanFrame} (h : m.IsParamReply reply)
    (hbytes : ∀ i : Fin 8, i.val < 2 ∨ 4 ≤ i.val ∧ i.val < 4 + T.size →
      reply.data.byte i = (putParam param.id (T.toRaw value)).byte i) :
    m.ReadsBack T param reply value := by
  have hindex : ofBytes reply.data.indexBytes = param.id := by
    refine toBytes_injective (n := 2) fun i => ?_
    rw [toBytes_ofBytes, ← putParam_index]
    exact hbytes _ (Or.inl i.isLt)
  have hvalue : ∀ indeterminate : T.Value,
      T.ofRaw indeterminate (ofBytes reply.data.valueBytes) = value := by
    refine fun indeterminate => ParamType.ofRaw_eq fun i hi => ?_
    rw [toBytes_ofBytes, ← ParamType.toBytes_toRaw hi, ← putParam_value param.id]
    exact hbytes _ (Or.inr ⟨Nat.le_add_right 4 i, Nat.add_lt_add_left hi 4⟩)
  constructor
  · intro s indeterminate tr x hafter hread
    rw [h.process s, hindex] at hread
    rw [readParameterAs_ret hafter hread, hvalue]
  · intro s indeterminate
    rw [h.process s, hindex, ← hvalue indeterminate]
    exact readParameterAs_run m indeterminate param _

end

/-- **The parameter codec**: in both protocols a reply that carries the data of a written parameter
is read as that parameter, and `read_parameter<T>` returns what `write_parameter<T>` sent. -/
theorem parameter_codec (m : Motor) : ParameterCodec m where
  replies := exists_isParamReply m
  reads frame id payload h hdata :=
    readsParam_of_data h (hdata.trans (encodeWriteParam_data m id payload))
  sends T param value := ⟨_, sends_iff.mpr rfl⟩
  written T param value tr h := by
    obtain ⟨sent, hsent⟩ := writeParameterRaw_success h
    exact ⟨.writeParameterRaw, sent, hsent⟩
  typed T param value sent reply hsent h hbytes := by
    rw [sends_iff.mp hsent, encodeWriteParam_data] at hbytes
    exact readsBack_of_bytes h hbytes

end Robstride
