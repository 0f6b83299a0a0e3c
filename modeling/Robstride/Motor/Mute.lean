import Robstride.Motor.Transmits
import Robstride.Motor.Waiting
import Robstride.Serial.Words

/-!
# Motor — MIT on a serial line

`SerialTransport` carries extended frames only.  A motor under MIT on such a transport is refused
every frame it hands over, and takes none of the frames that come back: no byte of its reaches the
line, no call of it succeeds, and its status stays as constructed (`mit_on_serial_mute`).
-/

namespace Robstride

open Support Support.Pool Support.Prog

/-! ### Answers -/

/-- The transport takes no frame. -/
def Untaken : (a : Action) → a.Res → Prop
  | .transmit _ _, sent => sent ≠ .success
  | _, _ => True

/-- A return without success and without a value. -/
def Ret.Fails : Ret → Prop
  | .result r => r ≠ .success
  | .value v => v = none

/-- A function that returns returns a failure. -/
def Action.Fails : Action → Prop
  | .leave _ value => value.Fails
  | _ => True

/-! ### Programs -/

/-- Where no frame is taken, the program returns from no call with success, and ends with `Q`. -/
abbrev Failing {α : Type} (Q : α → Prop) (p : Cmd α) : Prop := p.Under Untaken Action.Fails Q

section Programs

theorem failing_recorded {fn : Fn} {body : Cmd Result} (h : Failing (· ≠ .success) body) :
    Failing (· ≠ .success) (recorded fn body) := by
  refine Under.bind (Under.perform trivial) fun _ _ => h.bind fun r hr => ?_
  exact Under.bind (Under.perform (a := Action.leave fn (.result r)) hr) fun _ _ => hr

theorem failing_withCommandMutex {α : Type} {body : Cmd α} {Q : α → Prop} (h : Failing Q body) :
    Failing Q (withCommandMutex body) := by
  refine Under.bind (Under.perform trivial) fun _ _ => h.bind fun x hx => ?_
  exact Under.bind (Under.perform trivial) fun _ _ => hx

theorem failing_asked {α : Type} {p q : Cmd α} {Q : α → Prop} (hp : Failing Q p)
    (hq : Failing Q q) : Failing Q (do if ← isConnected then p else q : Cmd α) := by
  refine Under.bind (Under.perform trivial) fun connected _ => ?_
  split_ifs
  · exact hp
  · exact hq

/-- What follows a `transmit` that fails. -/
theorem failing_transmit {α : Type} {fn : Fn} {frame : CanFrame} {p : Cmd α} {q : Result → α}
    {Q : α → Prop} (hq : ∀ r, r ≠ .success → Q (q r)) :
    Failing Q (do
      let sent ← transmit fn frame
      if sent = .success then p else return q sent : Cmd α) := by
  refine Under.bind (Under.perform trivial) fun sent hsent => ?_
  have hfailed : sent ≠ .success := hsent
  rw [if_neg hfailed]
  exact hq sent hfailed

theorem failing_prepareWait {α : Type} {fn : Fn} {expected : FrameType} {p : Cmd α} {Q : α → Prop}
    (h : Failing Q p) : Failing Q (prepareWait fn expected >>= fun _ => p) :=
  ⟨trivial, fun _ _ => ⟨trivial, fun _ _ => ⟨trivial, fun _ _ => h⟩⟩⟩

theorem failing_request {fn : Fn} {frame : CanFrame} {expected : FrameType} {timeoutMs : ℕ}
    {failed : Result → Result} (hfailed : ∀ r, r ≠ .success → failed r ≠ .success) :
    Failing (· ≠ .success) (Motor.request fn frame expected timeoutMs failed) := by
  have hrefused : Failing (· ≠ .success) (Prog.ret .errNotConnected : Cmd Result) :=
    fun h => by cases h
  refine failing_recorded (failing_withCommandMutex (failing_asked ?_ hrefused))
  exact failing_prepareWait (failing_transmit hfailed)

variable (m : Motor)

theorem failing_checkOverrun : Failing (fun _ => True) m.checkOverrun := by
  have hstop : Failing (· ≠ .success) m.stop := failing_request fun _ hr => hr
  refine Under.bind (Under.perform trivial) fun _ _ => ?_
  split_ifs
  · refine Under.bind (Under.perform trivial) fun _ _ => hstop.bind fun _ _ => trivial
  · trivial

theorem failing_send (fn : Fn) (frame : Option CanFrame) :
    Failing (· ≠ .success) (m.send fn frame) := by
  have hrefused : Failing (· ≠ .success) (Prog.ret .errNotConnected : Cmd Result) :=
    fun h => by cases h
  have hoverrun : Failing (· ≠ .success) (Prog.ret .errOverrun : Cmd Result) :=
    fun h => by cases h
  refine failing_recorded (failing_asked ((failing_checkOverrun m).bind fun _ _ => ?_) hrefused)
  split_ifs
  · cases frame with
    | none => exact ⟨trivial, fun r => r.elim⟩
    | some frame => exact ⟨trivial, fun _ hr => hr⟩
  · exact hoverrun

theorem failing_writeParameterRaw (paramId : BitVec 16) (rawPayload : BitVec 32) :
    Failing (· ≠ .success) (m.writeParameterRaw paramId rawPayload) := by
  have hrefused : Failing (· ≠ .success) (Prog.ret .errNotConnected : Cmd Result) :=
    fun h => by cases h
  refine failing_recorded (failing_withCommandMutex (failing_asked ?_ hrefused))
  exact ⟨trivial, fun _ hr => hr⟩

theorem failing_readParameterRaw (paramId : BitVec 16) :
    Failing (· = none) (m.readParameterRaw paramId) := by
  have hbody : Failing (· = none) (withCommandMutex (m.readBody paramId)) :=
    failing_withCommandMutex (failing_asked
      (failing_prepareWait (failing_transmit fun _ _ => rfl)) rfl)
  refine Under.bind (Under.perform trivial) fun _ _ => hbody.bind fun value hvalue => ?_
  exact Under.bind (Under.perform (a := Action.leave _ (.value value)) hvalue) fun _ _ => hvalue

/-- `setup_mode` ends after its first write. -/
theorem failing_setupMode (mode : RunMode) (limit1 limit2 limit3 : CFloat) :
    Failing (· ≠ .success) (m.setupMode mode limit1 limit2 limit3) := by
  refine failing_recorded ((failing_writeParameterRaw m _ _).bind fun written hwritten => ?_)
  rw [if_neg hwritten]
  exact fun h => by cases h

theorem failing_drop {α : Type} {p : Cmd α} {Q : α → Prop} (h : Failing Q p) :
    Failing (fun _ => True) (do let _ ← p : Cmd Unit) := h.bind fun _ _ => trivial

/-- **Every operation** fails where no frame is taken. -/
theorem failing_body (op : Op) : Failing (fun _ => True) (m.body op) := by
  have hsame : ∀ r : Result, r ≠ .success → id r ≠ .success := fun _ hr => hr
  have hconst : ∀ r : Result, r ≠ .success → Result.errTransport ≠ .success :=
    fun _ _ h => by cases h
  cases op with
  | enable | ping | setZero => exact failing_drop (failing_request hconst)
  | stop | clearError => exact failing_drop (failing_request hsame)
  | sendMitControl _ _ _ _ _ | sendCurrentControl _ | sendVelocityControl _
  | sendPositionControl _ => exact failing_drop (failing_send m _ _)
  | setupMode mode limit1 limit2 limit3 => exact failing_drop (failing_setupMode m _ _ _ _)
  | stopPpMode => exact failing_drop (failing_recorded (failing_writeParameterRaw m _ _))
  | writeParameterRaw paramId rawPayload => exact failing_drop (failing_writeParameterRaw m _ _)
  | readParameterRaw paramId => exact failing_drop (failing_readParameterRaw m _)
  | processFrame reply =>
      refine All.under ((processFrame_processes m reply).mono fun a ha => ?_)
      cases a with
      | leave fn ret => cases ha.1
      | _ => trivial

end Programs

/-! ### Frames from a serial line -/

/-- What `SerialTransport::receive` returns is extended. -/
theorem parseRaw_refused (raw : Vector Byte 17) (motorId : Byte) :
    ProtocolMIT.isFeedbackFrame (SerialTransport.parseRaw raw) motorId = false :=
  if_pos (eff_parsed _)

/-- `transmit` refuses what MIT lays out, and writes nothing. -/
theorem serial_refuses_standard {motorId : Byte} {frame : CanFrame}
    (h : ProtocolMIT.Commands motorId frame) (t : SerialTransport) (nbytes : ℤ) :
    ∃ r, t.transmit frame nbytes = some (r, []) ∧ r ≠ .success := by
  unfold SerialTransport.transmit
  split_ifs with hfd hstandard hdlc
  · exact ⟨_, rfl, fun h => by cases h⟩
  · exact ⟨_, rfl, fun h => by cases h⟩
  · exact absurd h.standard hstandard
  · exact absurd h.standard hstandard
  · exact absurd h.standard hstandard

/-! ### Runs -/

section Runs

variable {m : Motor} {c : Config m.system} {ls : List (Label m.system)}

/-- The motor is on a serial transport: it answers each `transmit`, and each frame comes from its
`receive`. -/
def OnSerial (m : Motor) (_ : State) : Label m.system → Prop
  | .act _ (.transmit _ frame) r =>
      ∃ (t : SerialTransport) (nbytes : ℤ), (t.transmit frame nbytes).map Prod.fst = some r
  | .call _ (.processFrame reply) => ∃ raw, reply.frame = SerialTransport.parseRaw raw
  | _ => True

/-- Only `process_frame` changes the status. -/
theorem perform_status {t : ℕ} {a : Action} {ch : Choice} {s s' : State} {r : a.Res}
    (h : m.perform t a ch s = some (r, s')) (ha : ¬ a.OfFrame) :
    s'.vars.status = s.vars.status := by
  cases a with
  | parse _ | fetchSub _ | expectedType | notify | countUnknown => exact absurd trivial ha
  | transmit fn frame => rcases perform_transmit h with ⟨-, rfl⟩ | ⟨-, rfl⟩ <;> rfl
  | leave fn ret =>
      obtain ⟨-, rfl⟩ := Prod.mk.inj (Option.some.inj h)
      unfold State.close
      split_ifs <;> rfl
  | isConnected =>
      obtain rfl := perform_isConnected h
      rfl
  | undefined => cases h
  | _ =>
      simp only [Motor.perform] at h
      repeat' split at h
      all_goals cases h
      all_goals rfl

/-- What a motor under MIT performs on a serial transport. -/
def Mute (m : Motor) (a : Action) : Prop :=
  a.Fails ∧ a.Hands m.Commands ∧ ¬ a.OfFrame

theorem mute_body (hp : m.protocolType = .mit) {op : Op} {s : State} {t : ℕ}
    (hcall : OnSerial m s (.call t op)) :
    (m.body op).Under Untaken (Mute m) fun _ => True := by
  have hframe : (m.body op).All fun a => ¬ a.OfFrame := by
    cases hop : op.fn with
    | some fn => exact (body_within m op hop).mono fun _ ha => ha.1
    | none =>
        cases op with
        | processFrame reply =>
            obtain ⟨raw, hraw⟩ := hcall
            have hrefused : m.protocol.isFeedbackFrame reply.frame m.motorId = false := by
              unfold Motor.protocol
              rw [hp, hraw]
              exact parseRaw_refused raw m.motorId
            change (m.processFrame reply).All _
            unfold Motor.processFrame
            rw [hrefused]
            exact trivial
        | _ => cases hop
  exact (failing_body m op).and_all ((commands_body m op).and hframe)

/-- No frame is sent, and the status is as constructed. -/
structure Silent (m : Motor) (s : State) : Prop where
  sent : s.sent = []
  status : s.vars.status = m.initialVars.status

theorem Silent.step {l : Label m.system} {c c' : Config m.system} (h : Silent m c.state)
    (hact : ∀ t a r, l = .act t a r → Untaken a r ∧ ¬ a.OfFrame) (hstep : Step c l c') :
    Silent m c'.state := by
  cases hstep with
  | call hidle hs =>
      obtain ⟨replies, rfl⟩ := call_effect hs
      exact ⟨h.sent, h.status⟩
  | @act t a k r s ch ht hs =>
      have hperform : m.perform t a ch c.state = some (r, s) := hs
      obtain ⟨huntaken, hframe⟩ := hact t a r rfl
      refine ⟨?_, (perform_status hperform hframe).trans h.status⟩
      have hnone : a.sentBy r = [] := by
        cases a with
        | transmit fn frame => exact if_neg huntaken
        | _ => rfl
      rw [perform_sent hperform, h.sent, hnone, List.append_nil]
  | env hs =>
      rcases env_effect hs with ⟨arrived, received, replies, rfl⟩ | ⟨i, -, rfl⟩
      · exact ⟨h.sent, h.status⟩
      · exact ⟨h.sent, h.status⟩

/-- **MIT on a serial transport is mute**: in every run no byte of its reaches the line and no frame
counts as sent, no call returns success or a value, and no frame changes its status. -/
theorem mit_on_serial_mute (hp : m.protocolType = .mit) (h : Path (OnSerial m) m.initial ls c) :
    (c.state.sent = [] ∧ c.state.vars.status = m.initialVars.status) ∧
      (∀ t fn value r, .act t (.leave fn value) r ∈ ls → value.Fails) ∧
        ∀ t fn frame r, .act t (.transmit fn frame) r ∈ ls →
          ∀ (serial : SerialTransport) (nbytes : ℤ),
            ∃ r', serial.transmit frame nbytes = some (r', []) := by
  have hbody : ∀ s t op, OnSerial m s (.call t op) →
      (m.body op).Under Untaken (Mute m) fun _ => True := fun _ _ _ => mute_body hp
  have hcommands : ∀ {frame}, m.Commands frame → ProtocolMIT.Commands m.motorId frame := by
    intro frame hframe
    unfold Motor.Commands at hframe
    rwa [hp] at hframe
  have hans : ∀ (s : State) (t : ℕ) (a : Action) (r : a.Res), Mute m a →
      OnSerial m s (.act t a r) → Untaken a r := by
    intro s t a r hmute hserial
    cases a with
    | transmit fn frame =>
        obtain ⟨serial, nbytes, hr⟩ := hserial
        obtain ⟨r', hrefused, hfailed⟩ :=
          serial_refuses_standard (hcommands hmute.2.1) serial nbytes
        rw [hrefused] at hr
        obtain rfl := Option.some.inj hr
        exact hfailed
    | _ => trivial
  have hacts := (h.under hbody hans).2
  refine ⟨?_, fun t fn value r hmem => (hacts t _ r hmem).1,
    fun t fn frame r hmem serial nbytes => ?_⟩
  · have hsilent : Silent m c.state := by
      induction h with
      | nil => exact ⟨rfl, rfl⟩
      | @snoc c₁ c₂ ls l hpath hstep hC ih =>
          have hl : l ∈ ls ++ [l] := List.mem_append_right _ List.mem_cons_self
          have hbefore := ih fun t a r hmem => hacts t a r (List.mem_append_left _ hmem)
          refine hbefore.step (fun t a r heq => ?_) hstep
          subst heq
          have hmute := hacts t a r hl
          exact ⟨hans _ t a r hmute hC, hmute.2.2⟩
    exact ⟨hsilent.sent, hsilent.status⟩
  · obtain ⟨r', hrefused, -⟩ :=
      serial_refuses_standard (hcommands (hacts t _ r hmem).2.1) serial nbytes
    exact ⟨r', hrefused⟩

end Runs

/-- `transmit` on an open port finds a standard frame. -/
def mismatched : Label (Motor.sample .mit).system → Bool
  | .act _ (.transmit _ frame) r =>
      decide (r = .errProtocolMismatch ∧ frame.canId &&& canEffFlag = 0)
  | .call _ (.processFrame _) => false
  | _ => true

theorem onSerial_of_mismatched {s : State} {l : Label (Motor.sample .mit).system}
    (h : mismatched l = true) : OnSerial (Motor.sample .mit) s l := by
  cases l with
  | act t a r =>
      cases a with
      | transmit fn frame =>
          obtain ⟨hr, hstandard⟩ := of_decide_eq_true h
          refine ⟨{ SerialTransport.initial with fd := 3 }, 0, ?_⟩
          subst hr
          unfold SerialTransport.transmit
          rw [if_neg (by decide), if_pos hstandard]
          rfl
      | _ => trivial
  | call t op =>
      cases op with
      | processFrame reply => exact absurd h Bool.false_ne_true
      | _ => trivial
  | env e => trivial

/-- An MIT motor on an open serial port is to be enabled. -/
def muteEnable : List (Event (Motor.sample .mit).system) :=
  [.call 0 Op.enable] ++ go 0 2 ++ [.step 0 (Choice.connected true)] ++ go 0 3 ++
    [.step 0 (Choice.transmitted .errProtocolMismatch)] ++ go 0 2

theorem mit_on_serial_mute_enable : ∃ ls k,
    Path (OnSerial (Motor.sample .mit)) (Motor.sample .mit).initial ls k ∧
      .act 0 (.leave .enable (.result .errTransport)) () ∈ ls ∧
        (k.state.sent = [] ∧ k.state.vars.status = (Motor.sample .mit).initialVars.status) ∧
          (∀ t fn value r, .act t (.leave fn value) r ∈ ls → value.Fails) ∧
            ∀ t fn frame r, .act t (.transmit fn frame) r ∈ ls →
              ∀ (serial : SerialTransport) (nbytes : ℤ),
                ∃ r', serial.transmit frame nbytes = some (r', []) := by
  have hruns : ((Motor.sample .mit).initial.log (fun _ l => mismatched l = true) muteEnable).map
      (fun run => run.1.getLast?.bind returned) =
        some (some (0, .enable, .result .errTransport)) := by
    decide +kernel
  obtain ⟨⟨ls, k⟩, hlog, hlast⟩ := Option.map_eq_some_iff.mp hruns
  obtain ⟨l, hl, hreturned⟩ := Option.bind_eq_some_iff.mp hlast
  obtain ⟨before, rfl⟩ := List.getLast?_eq_some_iff.mp hl
  obtain rfl := returned_eq_some.mp hreturned
  have hpath : Path (OnSerial (Motor.sample .mit)) (Motor.sample .mit).initial _ k :=
    (log_path hlog).mono fun _ _ => onSerial_of_mismatched
  exact ⟨_, k, hpath, List.mem_append_right _ List.mem_cons_self, mit_on_serial_mute rfl hpath⟩

end Robstride
