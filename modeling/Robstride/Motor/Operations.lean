import Robstride.Motor.Rules

/-!
# Motor — Operations

Every operation follows the discipline of `Motor/Invariant.lean`, so every run keeps its
invariant (`discipline_kept`).

There is one rule for each shape of function: the synchronous commands, the control commands, the
parameter functions, and `process_frame`.
-/

namespace Robstride

open Support Support.Pool Support.Pool.Discipline

/-! ### Shapes of functions -/

section

variable {m : Motor} {t : ℕ} {c b : Bool} {n : ℕ} {Q : Option Wait → Prop}

/-- If there is a request, it may have led to this return value. -/
def MayReturn (m : Motor) (ret : Ret) (o : Option Wait) : Prop := ∀ w, o = some w → w.Honest m ret

theorem closed_mayReturn {ret : Ret} : Closed (MayReturn m ret) := by
  rintro w w' hg h v hv
  obtain rfl := Option.some.inj hv
  exact (h w rfl).grows hg

theorem NoRequest.mayReturn {o : Option Wait} (h : NoRequest o) (ret : Ret) :
    MayReturn m ret o := fun _ hw => nomatch h.symm.trans hw

theorem At.request_mono {Q' : Option Wait → Prop} {s : State} (h : At t c b n Q s)
    (hQ : ∀ o, Q o → Q' o) : At t c b n Q' s :=
  ⟨h.command, h.motor, h.reserved, hQ _ h.request, h.last⟩

/-- Without a request any result is honest. -/
theorem At.mayReturn {s : State} (h : At t c b n NoRequest s) (ret : Ret) :
    At t c b n (MayReturn m ret) s := h.request_mono fun _ ho => ho.mayReturn ret

theorem recorded_rule (hQ : Closed Q) {fn : Fn} {body : Cmd Result}
    (hbody : m.discipline.Triple t (At t c b n NoRequest) body
      fun r => At t c b n (MayReturn m (.result r))) :
    m.discipline.Triple t (At t c b n Q) (recorded fn body) fun _ => At t c b n NoRequest :=
  Triple.bind (enter_rule hQ fn) fun _ => Triple.bind hbody fun _ =>
    Triple.bind (leave_rule closed_mayReturn fun w hw => hw w rfl) fun _ =>
      Triple.ret fun _ hs => hs

theorem withCommandMutex_rule {α : Type} {body : Cmd α} {R : α → Option Wait → Prop}
    (hQ : ∀ x, Closed (R x))
    (hbody : m.discipline.Triple t (At t true b n NoRequest) body fun x => At t true b n (R x)) :
    m.discipline.Triple t (At t false b n NoRequest) (withCommandMutex body)
      fun x => At t false b n (R x) :=
  Triple.bind lockCommand_rule fun _ => Triple.bind hbody fun x =>
    Triple.bind (unlockCommand_rule (hQ x)) fun _ => Triple.ret fun _ hs => hs

/-! ### Synchronous commands -/

/-- Success is only returned for a request that is matched. -/
theorem request_rule (hQ : Closed Q) {fn : Fn} (hfn : fn.isSend = false) (frame : CanFrame)
    (expected : FrameType) (timeoutMs : ℕ) {failed : Result → Result}
    (hfailed : ∀ r, r ≠ .success → failed r ≠ .success) :
    m.discipline.Triple t (At t false false n Q)
      (Motor.request fn frame expected timeoutMs failed) fun _ => At t false false n NoRequest := by
  refine recorded_rule hQ (withCommandMutex_rule (fun _ => closed_mayReturn) ?_)
  refine Triple.bind (isConnected_rule closed_noRequest) fun connected => ?_
  cases connected with
  | false => exact Triple.ret fun _ hs => hs.mayReturn _
  | true =>
      refine Triple.bind (prepareWait_rule closed_noRequest fn expected) fun _ =>
        Triple.bind (transmit_asked_rule hfn frame) fun sent => ?_
      by_cases hsent : sent = .success
      · rw [if_pos hsent]
        refine (waitForResponse_rule timeoutMs fun w w' hg h hs => hg.tag.trans (h hs)).weaken
          (fun _ hs => hs) fun r s hs => hs.request_mono ?_
        rintro _ ⟨w, rfl, -, -, -, hsaw⟩ v hv
        obtain rfl := Option.some.inj hv
        intro hr
        simpa [Saw, hr] using hsaw
      · rw [if_neg hsent]
        refine Triple.ret fun s hs => hs.request_mono ?_
        exact fun _ _ _ _ hr => absurd hr (hfailed sent hsent)

theorem stop_rule (hQ : Closed Q) :
    m.discipline.Triple t (At t false false n Q) m.stop fun _ => At t false false n NoRequest :=
  request_rule hQ rfl _ _ _ fun _ hr => hr

/-! ### Control commands -/

theorem checkOverrun_rule :
    m.discipline.Triple t (At t false false 0 NoRequest) m.checkOverrun
      fun passed => At t false false (if passed then 1 else 0) NoRequest := by
  refine Triple.bind (fetchAdd_rule closed_noRequest) fun pending => ?_
  split_ifs with hover
  · exact Triple.bind (store_limit_rule closed_noRequest) fun _ =>
      Triple.bind (stop_rule closed_noRequest) fun _ => Triple.ret fun _ hs => hs
  · exact Triple.ret fun _ hs => hs

theorem undefined_rule {α : Type} {P : State → Prop} {Q' : α → State → Prop} :
    m.discipline.Triple t P undefined Q' :=
  fun _ _ _ _ _ => ⟨trivial, fun _ r => r.elim⟩

/-- A control command that passes the check uses its reservation up. -/
theorem send_rule (hQ : Closed Q) {fn : Fn} (hfn : fn.isSend = true) (frame : Option CanFrame) :
    m.discipline.Triple t (At t false false 0 Q) (m.send fn frame)
      fun _ => At t false false 0 NoRequest := by
  refine recorded_rule hQ (Triple.bind (isConnected_rule closed_noRequest) fun connected => ?_)
  cases connected with
  | false => exact Triple.ret fun _ hs => hs.mayReturn _
  | true =>
      refine Triple.bind checkOverrun_rule fun passed => ?_
      cases passed with
      | false => exact Triple.ret fun _ hs => hs.mayReturn _
      | true =>
          cases frame with
          | none => exact undefined_rule
          | some frame =>
              refine (transmit_rule (fun _ => rfl) frame).weaken (fun _ hs => hs)
                fun r s hs => At.mayReturn ?_ (.result r)
              rwa [if_pos hfn] at hs

/-! ### Parameters -/

theorem writeParameterRaw_rule (hQ : Closed Q) (paramId : BitVec 16) (rawPayload : BitVec 32) :
    m.discipline.Triple t (At t false false n Q) (m.writeParameterRaw paramId rawPayload)
      fun _ => At t false false n NoRequest := by
  refine recorded_rule hQ (withCommandMutex_rule (fun _ => closed_mayReturn)
    (Triple.bind (isConnected_rule closed_noRequest) fun connected => ?_))
  have hfn : Fn.writeParameterRaw.isSend = true → n = 1 := nofun
  cases connected with
  | false => exact Triple.ret fun _ hs => hs.mayReturn _
  | true => exact (transmit_rule hfn _).weaken (fun _ hs => hs) fun _ _ hs => hs.mayReturn _

/-- A further write of `setup_mode`, made or not. -/
theorem nextWrite_rule (p : Prop) [Decidable p] (param : TypedParam) (raw : BitVec 32)
    (ok : Result) :
    m.discipline.Triple t (At t false false n NoRequest)
      (if p then m.writeParameter param raw else pure ok)
      fun _ => At t false false n NoRequest := by
  split_ifs
  · exact writeParameterRaw_rule closed_noRequest _ _
  · exact Triple.ret fun _ hs => hs

theorem setupMode_rule (hQ : Closed Q) (mode : RunMode) (limit1 limit2 limit3 : CFloat) :
    m.discipline.Triple t (At t false false n Q) (m.setupMode mode limit1 limit2 limit3)
      fun _ => At t false false n NoRequest := by
  have hwrite : ∀ param raw, m.discipline.Triple t (At t false false n NoRequest)
      (m.writeParameter param raw) fun _ => At t false false n NoRequest :=
    fun _ _ => writeParameterRaw_rule closed_noRequest _ _
  refine recorded_rule hQ (Triple.bind (hwrite _ _) fun written => ?_)
  split_ifs
  · cases mode with
    | operation | current | other _ _ => exact Triple.ret fun _ hs => hs.mayReturn _
    | speed =>
        exact Triple.bind (hwrite _ _) fun _ => Triple.bind (nextWrite_rule _ _ _ _) fun _ =>
          Triple.ret fun _ hs => hs.mayReturn _
    | positionCsp => exact Triple.bind (hwrite _ _) fun _ => Triple.ret fun _ hs => hs.mayReturn _
    | position =>
        exact Triple.bind (hwrite _ _) fun _ => Triple.bind (nextWrite_rule _ _ _ _) fun _ =>
          Triple.bind (nextWrite_rule _ _ _ _) fun _ => Triple.ret fun _ hs => hs.mayReturn _
  · exact Triple.ret fun _ hs => hs.mayReturn _

/-- The value returned is `nullopt` for a request that timed out, and otherwise from the last
parameter reply. -/
theorem readParameterRaw_rule (hQ : Closed Q) (paramId : BitVec 16) :
    m.discipline.Triple t (At t false false n Q) (m.readParameterRaw paramId)
      fun _ => At t false false n NoRequest := by
  refine Triple.bind (enter_rule hQ _) fun _ => Triple.bind
    (withCommandMutex_rule (R := fun v => MayReturn m (.value v)) (fun _ => closed_mayReturn)
      (Triple.bind (isConnected_rule closed_noRequest) fun connected => ?_)) fun v =>
    Triple.bind (leave_rule closed_mayReturn fun w hw => hw w rfl) fun _ =>
      Triple.ret fun _ hs => hs
  cases connected with
  | false => exact Triple.ret fun _ hs => hs.mayReturn _
  | true =>
      refine Triple.bind (prepareWait_rule closed_noRequest _ _) fun _ =>
        Triple.bind (transmit_asked_rule rfl _) fun sent => ?_
      by_cases hsent : sent = .success
      · rw [if_pos hsent]
        refine Triple.bind (waitForResponse_rule 100 fun w w' hg h hs => hg.tag.trans (h hs))
          fun waited => ?_
        by_cases hwaited : waited = .success
        · rw [if_pos hwaited]
          refine Triple.bind ((lockMotor_rule (Q := Asked (.readParameterRaw paramId) .readParam
            (Wait.Matched m)) (closed_asked fun _ _ hg h => h.grows hg)).weaken
              (fun s hs => hs.request_mono ?_) fun _ _ hs => hs) fun _ =>
            Triple.bind readParam_rule fun v => Triple.bind
              (unlockMotor_rule (closed_asked fun _ _ hg h p => (h p).grows hg)) fun _ =>
                Triple.ret fun s hs => hs.request_mono ?_
          · rintro _ ⟨w, rfl, hfn, hexpected, -, hsaw⟩
            exact ⟨w, rfl, hfn, hexpected, by simpa [Saw, hwaited] using hsaw⟩
          · rintro _ ⟨w, rfl, hfn, -, hread⟩ w' hw'
            obtain rfl := Option.some.inj hw'
            intro p hp _
            obtain rfl := Fn.readParameterRaw.inj (hfn.symm.trans hp)
            exact .inr (hread paramId)
        · rw [if_neg hwaited]
          refine Triple.ret fun s hs => hs.request_mono ?_
          rintro _ ⟨w, rfl, -, hexpected, -, hsaw⟩ v hv
          obtain rfl := Option.some.inj hv
          exact fun _ _ _ => .inl ⟨rfl, by simpa [Saw, hwaited, hexpected] using hsaw⟩
      · rw [if_neg hsent]
        refine Triple.ret fun s hs => hs.request_mono ?_
        rintro _ ⟨w, rfl, -, -, htag⟩ v hv
        obtain rfl := Option.some.inj hv
        exact fun _ _ hne => absurd (htag hsent) hne

/-! ### Incoming frames -/

theorem notifyIf_rule (hQ : Closed Q) (type : FrameType) :
    m.discipline.Triple t (fun s => At t c true n Q s ∧ Pending m type s)
      (do
        let expected ← expectedType
        if type = expected then do
          notify
          unlockMotor
        else unlockMotor)
      fun _ => At t c false n Q := by
  refine Triple.bind (expectedType_rule hQ type) fun expected => ?_
  split_ifs with htype
  · subst htype
    exact Triple.bind (notify_rule hQ) fun _ => unlockMotor_rule hQ
  · refine (unlockMotor_rule hQ).weaken ?_ fun _ _ hs => hs
    rintro s ⟨hs, hp, rfl⟩
    exact ⟨hs, hp.coherent htype⟩

theorem processFrame_rule (hQ : Closed Q) (reply : Reply) :
    m.discipline.Triple t (fun s => At t c false n Q s ∧ s.Delivered reply) (m.processFrame reply)
      fun _ => At t c false n Q := by
  unfold Motor.processFrame
  split_ifs
  · have hlock : m.discipline.Triple t (fun s => At t c false n Q s ∧ s.Delivered reply) lockMotor
        fun _ s => (At t c true n Q s ∧ Coherent m s) ∧ s.Delivered reply :=
      (lockMotor_rule hQ).frame (fun s s' h hr => h.congr hr.received)
        fun h hd => hd.congr (perform_received h ▸ fun _ => id)
    refine Triple.bind hlock fun _ => Triple.bind (parse_rule hQ reply) fun parsed => ?_
    cases parsed with
    | true =>
        refine Triple.bind (fetchSub_rule hQ reply _) fun prev => ?_
        -- Both ways of the test on the counter lead on to the notification.
        split_ifs with hprev
        · exact Triple.bind (store_zero_rule hQ hprev) fun _ => notifyIf_rule hQ _
        · exact (notifyIf_rule hQ _).weaken (fun s hs => hs.1) fun _ _ hs => hs
    | false => exact Triple.bind (countUnknown_rule hQ) fun _ => unlockMotor_rule hQ
  · exact Triple.ret fun s hs => hs.1

end

/-! ### The system -/

/-- The result of a function is dropped. -/
theorem drop_rule {m : Motor} {t : ℕ} {α : Type} {P : State → Prop} {p : Cmd α}
    (h : m.discipline.Triple t P p fun _ => At t false false 0 NoRequest) :
    m.discipline.Triple t P (do let _ ← p) fun _ => m.discipline.idle t :=
  Triple.bind h fun _ => Triple.ret fun _ hs => hs.request_mono fun _ _ => trivial

/-- The five synchronous commands. -/
theorem command_rule {m : Motor} {t : ℕ} {Q : Option Wait → Prop} (hQ : Closed Q) {fn : Fn}
    (hfn : fn.isSend = false) (frame : CanFrame) (expected : FrameType) (timeoutMs : ℕ)
    {failed : Result → Result} (hfailed : ∀ r, r ≠ .success → failed r ≠ .success) :
    m.discipline.Triple t (At t false false 0 Q)
      (do let _ ← Motor.request fn frame expected timeoutMs failed) fun _ => m.discipline.idle t :=
  drop_rule (request_rule hQ hfn frame expected timeoutMs hfailed)

theorem body_rule (m : Motor) (t : ℕ) (op : Op) (hop : ∀ reply, op ≠ .processFrame reply) :
    m.discipline.Triple t (m.discipline.idle t) (m.body op) fun _ => m.discipline.idle t := by
  have hQ : Closed fun _ => True := fun _ _ _ _ => trivial
  have herr : ∀ r : Result, r ≠ .success → Result.errTransport ≠ .success := nofun
  cases op with
  | enable => exact command_rule hQ rfl _ _ _ herr
  | stop => exact command_rule hQ rfl _ _ _ fun _ hr => hr
  | clearError => exact command_rule hQ rfl _ _ _ fun _ hr => hr
  | ping => exact command_rule hQ rfl _ _ _ herr
  | setZero => exact command_rule hQ rfl _ _ _ herr
  | sendMitControl torque pos vel kp kd => exact drop_rule (send_rule hQ rfl _)
  | sendCurrentControl iqRef => exact drop_rule (send_rule hQ rfl _)
  | sendVelocityControl spdRef => exact drop_rule (send_rule hQ rfl _)
  | sendPositionControl locRef => exact drop_rule (send_rule hQ rfl _)
  | setupMode mode limit1 limit2 limit3 => exact drop_rule (setupMode_rule hQ mode _ _ _)
  | stopPpMode =>
      exact drop_rule (recorded_rule hQ ((writeParameterRaw_rule closed_noRequest _ _).weaken
        (fun _ hs => hs) fun _ _ hs => hs.mayReturn _))
  | writeParameterRaw paramId rawPayload => exact drop_rule (writeParameterRaw_rule hQ _ _)
  | readParameterRaw paramId => exact drop_rule (readParameterRaw_rule hQ paramId)
  | processFrame reply => exact absurd rfl (hop reply)

/-- **The motor follows its discipline**, whichever operations the threads run. -/
theorem discipline_kept (m : Motor) : m.discipline.Kept where
  step hinv hpre h := perform_keeps hinv hpre h
  call {t op s s'} hinv hidle h := by
    obtain ⟨hinv', hrely⟩ := call_keeps hinv h
    have hidle' := m.discipline.idle_stable hidle (hrely t)
    refine ⟨hinv', fun u _ => hrely u, ?_⟩
    by_cases hop : ∃ reply, op = .processFrame reply
    · obtain ⟨reply, rfl⟩ := hop
      simp only [State.call] at h
      split_ifs at h with hhead
      obtain rfl := Option.some.inj h
      -- The frame was on its way, so what it answers was received.
      exact processFrame_rule (fun _ _ _ _ => trivial) reply _
        ⟨hidle', hinv.replies reply (List.mem_of_mem_head? hhead)⟩
    · exact body_rule m t op (fun reply h => hop ⟨reply, h⟩) s' hidle'
  env hinv h := env_keeps hinv h

theorem initial_inv (m : Motor) : Inv m m.initialState where
  arrived := nofun
  replies := nofun
  parsed := nofun
  owner := nofun
  honest := nofun
  free _ := nofun

theorem initial_ok (m : Motor) : m.discipline.Ok m.initial :=
  start_ok (initial_inv m) fun _ => ⟨by simp [Motor.initialState], by simp [Motor.initialState], rfl,
    trivial, nofun⟩

end Robstride
