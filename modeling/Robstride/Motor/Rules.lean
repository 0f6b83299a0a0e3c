import Robstride.Motor.Invariant

/-!
# Motor — Rules

What a thread knows at each point of its program (`At`): which mutexes it holds, how often it is
reserved, and what its request is like (`Asked`).  There is one rule for each action, and one for
`prepare_wait` and `wait_for_response`.

Between parsing a frame and setting the flag for it, the guarded fields are behind by that frame
(`Pending`).
-/

namespace Robstride

open Support Support.Pool Support.Pool.Discipline

/-! ### Assertions -/

/-- The request of a thread. -/
def State.request (s : State) (t : ℕ) : Option Wait := (s.locals t).wait.map s.waits

/-- What a thread holds, and what its request is like. -/
structure At (t : ℕ) (c b : Bool) (n : ℕ) (Q : Option Wait → Prop) (s : State) : Prop where
  command : ∀ k, s.commandMutex = some (t, k) ↔ c = true ∧ k = 1
  motor : s.motorMutex = some t ↔ b = true
  reserved : s.reserved.count t = n
  request : Q (s.request t)
  /-- Under `command_mutex_` its request is the last. -/
  last : c = true → ∀ i, (s.locals t).wait = some i → i + 1 = s.next

/-- Other threads cannot make it false. -/
def Closed (Q : Option Wait → Prop) : Prop := ∀ w w', Wait.Grows w w' → Q (some w) → Q (some w')

/-- There is no request. -/
def NoRequest (o : Option Wait) : Prop := o = none

/-- The request is this function's, waits for this type, and is as `P` says. -/
def Asked (fn : Fn) (expected : FrameType) (P : Wait → Prop) (o : Option Wait) : Prop :=
  ∃ w, o = some w ∧ w.fn = fn ∧ w.expected = expected ∧ P w

/-- No request stays no request. -/
theorem closed_noRequest : Closed NoRequest := fun _ _ _ h => nomatch h

/-- A request asked stays asked, with what grows along. -/
theorem closed_asked {fn : Fn} {expected : FrameType} {P : Wait → Prop}
    (hP : ∀ w w', Wait.Grows w w' → P w → P w') : Closed (Asked fn expected P) := by
  rintro w w' hg ⟨v, hv, hfn, hexpected, hp⟩
  obtain rfl := Option.some.inj hv
  exact ⟨w', rfl, hg.fn.trans hfn, hg.expected.trans hexpected, hP w w' hg hp⟩

/-- A thread's place is kept by the changes it can bear. -/
theorem At.rely {t : ℕ} {c b : Bool} {n : ℕ} {Q : Option Wait → Prop} {s s' : State}
    (hQ : Closed Q) (h : At t c b n Q s) (hr : Rely t s s') : At t c b n Q s' where
  command k := (hr.command k).trans (h.command k)
  motor := hr.motor.trans h.motor
  reserved := hr.reserved.trans h.reserved
  request := by
    have hq := h.request
    rw [State.request] at hq ⊢
    rw [hr.locals]
    cases hw : (s.locals t).wait with
    | none => rwa [hw] at hq
    | some i =>
        rw [hw] at hq
        exact hQ _ _ (hr.wait i hw) hq
  last hc i hi := by
    rw [hr.active ⟨1, (h.command 1).mpr ⟨hc, rfl⟩⟩]
    exact h.last hc i (hr.locals ▸ hi)

/-- The rely–guarantee argument for the motor. -/
@[reducible] def Motor.discipline (m : Motor) : Discipline m.system where
  inv := Inv m
  rely := Rely
  pre := m.pre
  idle t := At t false false 0 fun _ => True
  rely_refl := rely_refl
  rely_trans := rely_trans
  idle_stable h hr := h.rely (fun _ _ _ _ => trivial) hr

section

variable {m : Motor} {t : ℕ} {c b : Bool} {n : ℕ} {Q : Option Wait → Prop}

/-- A thread's place is stable. -/
theorem stable_at (hQ : Closed Q) : m.discipline.Stable t (At t c b n Q) :=
  fun _ _ h hr => h.rely hQ hr

/-- What is said of the guarded fields only holds while the thread guards them. -/
theorem stable_held (hQ : Closed Q) {J : State → Prop}
    (hJ : ∀ s s', J s → Untouched s s' → J s') :
    m.discipline.Stable t fun s => At t c true n Q s ∧ J s :=
  fun s s' h hr => ⟨h.1.rely hQ hr, hJ s s' h.2 (hr.held (h.1.motor.mpr rfl))⟩

/-- Under `motor_mutex_` the shared fields are stable too. -/
theorem stable_coherent (hQ : Closed Q) :
    m.discipline.Stable t fun s => At t c true n Q s ∧ Coherent m s :=
  stable_held hQ fun _ _ => Coherent.untouched

/-- What is known of the thread's request. -/
theorem At.request_of_wait {s : State} (h : At t c b n Q s) {i : ℕ}
    (hi : (s.locals t).wait = some i) : Q (some (s.waits i)) := by
  have hq := h.request
  rwa [State.request, hi] at hq

/-! ### Rules for the actions -/

/-- `enter`: no request is open. -/
theorem enter_rule (hQ : Closed Q) (fn : Fn) :
    m.discipline.Triple t (At t c b n Q) (enter fn) fun _ => At t c b n NoRequest := by
  refine Triple.perform (stable_at hQ) (fun _ _ _ => trivial) fun s ch r s' _ hs h _ => ?_
  simp only [Motor.perform] at h
  split_ifs at h
  all_goals
    obtain ⟨-, rfl⟩ := Prod.mk.inj (Option.some.inj h)
    refine ⟨hs.command, hs.motor, hs.reserved, ?_, fun _ i hi => ?_⟩
    · simp [NoRequest, State.request, State.withLocal]
    · simp [State.withLocal] at hi

/-- `leave`: the request answered honestly is over. -/
theorem leave_rule (hQ : Closed Q) {fn : Fn} {ret : Ret}
    (hret : ∀ w, Q (some w) → w.Honest m ret) :
    m.discipline.Triple t (At t c b n Q) (leave fn ret) fun _ => At t c b n NoRequest := by
  refine Triple.perform (stable_at hQ) (fun s _ hs i hi => hret _ (hs.request_of_wait hi))
    fun s ch r s' _ hs h _ => ?_
  simp only [Motor.perform, State.close] at h
  split_ifs at h
  all_goals
    obtain ⟨-, rfl⟩ := Prod.mk.inj (Option.some.inj h)
    refine ⟨hs.command, hs.motor, hs.reserved, ?_, fun _ i hi => ?_⟩
    · simp [NoRequest, State.request, State.withLocal]
    · simp [State.withLocal] at hi

/-- `command_mutex_` may be taken with no request open. -/
theorem lockCommand_rule : m.discipline.Triple t (At t false b n NoRequest) lockCommand
    fun _ => At t true b n NoRequest := by
  refine Triple.perform (stable_at closed_noRequest) (fun _ _ _ => trivial)
    fun s ch r s' _ hs h _ => ?_
  have hwait : (s.locals t).wait = none := Option.map_eq_none_iff.mp hs.request
  simp only [Motor.perform] at h
  split at h
  next hc =>
    obtain ⟨-, rfl⟩ := Prod.mk.inj (Option.some.inj h)
    refine ⟨fun k => ?_, hs.motor, hs.reserved, hs.request, fun _ i hi => ?_⟩
    · simp [eq_comm]
    · have hnone := hwait.symm.trans hi
      cases hnone
  next u k hc =>
    split_ifs at h with hu
    exact absurd ((hs.command k).mp (hu ▸ hc)).1 (by simp)

/-- `command_mutex_` is given back. -/
theorem unlockCommand_rule (hQ : Closed Q) :
    m.discipline.Triple t (At t true b n Q) unlockCommand fun _ => At t false b n Q := by
  refine Triple.perform (stable_at hQ) (fun _ _ _ => trivial) fun s ch r s' _ hs h _ => ?_
  have hc := (hs.command 1).mpr ⟨rfl, rfl⟩
  simp only [Motor.perform, hc, if_true] at h
  obtain ⟨-, rfl⟩ := Prod.mk.inj (Option.some.inj h)
  exact ⟨fun k => by simp, hs.motor, hs.reserved, hs.request, fun hc => absurd hc (by simp)⟩

/-- Behind `motor_mutex_` the shared fields are in step with the last request. -/
theorem lockMotor_rule (hQ : Closed Q) : m.discipline.Triple t (At t c false n Q) lockMotor
    fun _ s => At t c true n Q s ∧ Coherent m s := by
  refine Triple.perform (stable_at hQ) (fun _ _ _ => trivial) fun s ch r s' hinv hs h _ => ?_
  simp only [Motor.perform] at h
  split_ifs at h with hm
  obtain ⟨-, rfl⟩ := Prod.mk.inj (Option.some.inj h)
  refine ⟨⟨hs.command, by simp, hs.reserved, hs.request, hs.last⟩, ?_⟩
  exact (hinv.free hm).untouched ⟨rfl, rfl, rfl, rfl, fun _ => ⟨rfl, rfl⟩⟩

/-- They must be so when it is given back. -/
theorem unlockMotor_rule (hQ : Closed Q) :
    m.discipline.Triple t (fun s => At t c true n Q s ∧ Coherent m s) unlockMotor
      fun _ => At t c false n Q := by
  refine Triple.perform (stable_coherent hQ) (fun _ _ hs => hs.2) fun s ch r s' _ hs h _ => ?_
  simp only [Motor.perform] at h
  split_ifs at h with hm
  obtain ⟨-, rfl⟩ := Prod.mk.inj (Option.some.inj h)
  exact ⟨hs.1.command, by simp, hs.1.reserved, hs.1.request, hs.1.last⟩

/-- The test for the connection changes nothing. -/
theorem isConnected_rule (hQ : Closed Q) :
    m.discipline.Triple t (At t c b n Q) isConnected fun _ => At t c b n Q := by
  refine Triple.perform (stable_at hQ) (fun _ _ _ => trivial) fun s ch r s' _ hs h _ => ?_
  obtain rfl := perform_isConnected h
  exact hs

/-- The thread's request is the last one. -/
theorem prepare_rule (hQ : Closed Q) (fn : Fn) (expected : FrameType) :
    m.discipline.Triple t (fun s => At t true true n Q s ∧ Coherent m s) (prepare fn expected)
      fun _ s => At t true true n (Asked fn expected fun w => w.tag = none) s ∧
        Coherent m s := by
  refine Triple.perform (stable_coherent hQ)
    (fun s _ hs => ⟨hs.1.motor.mpr rfl, 1, (hs.1.command 1).mpr ⟨rfl, rfl⟩⟩)
    fun s ch r s' _ hs h _ => ?_
  simp only [Motor.perform] at h
  obtain ⟨-, rfl⟩ := Prod.mk.inj (Option.some.inj h)
  refine ⟨⟨hs.1.command, hs.1.motor, hs.1.reserved, ?_, fun _ i hi => ?_⟩, fun i hi => ?_⟩
  · simp [Asked, State.request, State.withLocal, State.withWait, State.withVars, noWait]
  · simp only [State.withLocal, State.withWait, State.withVars, Function.update_self] at hi ⊢
    rw [Option.some.inj hi]
  · obtain rfl : i = s.next := Nat.succ.inj hi
    -- Nothing has been parsed since this very step.
    constructor
    · simp [State.withLocal, State.withWait, State.withVars]
    · simp [State.withLocal, State.withWait, State.withVars, Wait.Matched, noWait]
    · simp [State.withLocal, State.withWait, State.withVars, Motor.paramReplies, noWait]

/-- A transmission outside a request; a control command uses the thread's reservation up. -/
theorem transmit_rule {fn : Fn} (hn : fn.isSend = true → n = 1) (frame : CanFrame) :
    m.discipline.Triple t (At t c b n NoRequest) (transmit fn frame)
      fun _ => At t c b (if fn.isSend then 0 else n) NoRequest := by
  have hcount : ∀ s, At t c b n NoRequest s → (s.release t fn).reserved.count t =
      if fn.isSend then 0 else n := fun s hs => by
    simp only [State.release]
    split_ifs with hfn
    · rw [List.count_erase_self, hs.reserved, hn hfn]
    · exact hs.reserved
  refine Triple.perform (stable_at closed_noRequest)
    (fun s _ hs => ⟨fun hfn => ?_, fun i hi => ?_⟩) fun s ch r s' _ hs h _ => ?_
  · rw [← List.count_pos_iff, hs.reserved, hn hfn]
    exact Nat.one_pos
  · have hnone := (Option.map_eq_none_iff.mp hs.request).symm.trans hi
    cases hnone
  · have hwait : (s.locals t).wait = none := Option.map_eq_none_iff.mp hs.request
    rcases perform_transmit h with ⟨-, rfl⟩ | ⟨-, rfl⟩
    all_goals
      refine ⟨hs.command, hs.motor, hcount s hs, ?_, hs.last⟩
      exact Option.map_eq_none_iff.mpr hwait

/-- A function that is no `send_*` has no reservation to use up. -/
theorem release_reserved {s : State} {fn : Fn} (hfn : fn.isSend = false) :
    (s.release t fn).reserved = s.reserved := by
  simp [State.release, hfn]

/-- The transmission of a request: a frame that fails to go out has no number. -/
theorem transmit_asked_rule {fn : Fn} {expected : FrameType} (hfn : fn.isSend = false)
    (frame : CanFrame) :
    m.discipline.Triple t (At t c b n (Asked fn expected fun w => w.tag = none))
      (transmit fn frame)
      fun r => At t c b n (Asked fn expected fun w => r ≠ .success → w.tag = none) := by
  refine Triple.perform (stable_at (closed_asked fun w w' hg h => hg.tag.trans h))
    (fun s _ hs => ⟨fun hsend => by simp [hfn] at hsend, fun i hi => ?_⟩)
    fun s ch r s' _ hs h _ => ?_
  · obtain ⟨w, hw, -, -, htag⟩ := hs.request_of_wait hi
    exact Option.some.inj hw ▸ htag
  obtain ⟨w, hw, hfn', hexpected, htag⟩ := hs.request
  obtain ⟨i, hi, rfl⟩ := Option.map_eq_some_iff.mp hw
  rcases perform_transmit h with ⟨hr, rfl⟩ | ⟨-, rfl⟩
  · refine ⟨hs.command, hs.motor, ?_, ?_, hs.last⟩
    · rw [release_reserved hfn]
      exact hs.reserved
    · refine ⟨{ s.waits i with tag := some s.sent.length }, ?_, hfn', hexpected,
        fun hne => absurd hr hne⟩
      refine Option.map_eq_some_iff.mpr ⟨i, hi, ?_⟩
      exact withWaitOf_waits (s := s.recordSent t fn frame)
        (f := fun w => { w with tag := some s.sent.length }) hi
  · refine ⟨hs.command, hs.motor, ?_, ?_, hs.last⟩
    · rw [release_reserved hfn]
      exact hs.reserved
    · exact ⟨s.waits i, hw, hfn', hexpected, fun _ => htag⟩

/-! ### Waiting -/

/-- What the predicate of `wait_for` saw. -/
def Saw (m : Motor) (received : Bool) (w : Wait) : Prop :=
  if received then w.Matched m else w.TimedOut m w.expected

/-- What was seen of a request stays so. -/
theorem saw_grows {received : Bool} (w w' : Wait) (hg : w.Grows w') (h : Saw m received w) :
    Saw m received w' := by
  cases received with
  | true => exact Wait.Matched.grows h hg
  | false =>
      change w'.TimedOut m w'.expected
      rw [hg.expected]
      exact Wait.TimedOut.grows h hg

/-- A set flag means that the thread's request, the last one, is matched. -/
theorem matched_of_flag {s : State} (hs : At t true b n Q s) (hc : Coherent m s) {i : ℕ}
    (hi : (s.locals t).wait = some i) :
    s.vars.responseReceived = true ↔ (s.waits i).Matched m :=
  (hc i (hs.last rfl i hi)).flag

/-- While the thread sleeps it has let go of `motor_mutex_`. -/
def Started (m : Motor) (t n : ℕ) (fn : Fn) (expected : FrameType) (P : Wait → Prop)
    (ready : Bool) (s : State) : Prop :=
  if ready then At t true true n (Asked fn expected fun w => P w ∧ Saw m true w) s ∧ Coherent m s
  else At t true false n (Asked fn expected P) s

/-- Either the flag was set, or the thread sleeps without the mutex. -/
theorem startWait_rule {fn : Fn} {expected : FrameType} {P : Wait → Prop} (timeoutMs : ℕ)
    (hP : ∀ w w', Wait.Grows w w' → P w → P w') :
    m.discipline.Triple t (fun s => At t true true n (Asked fn expected P) s ∧ Coherent m s)
      (startWait timeoutMs) (Started m t n fn expected P) := by
  refine Triple.perform (stable_coherent (closed_asked hP))
    (fun s _ hs => ⟨hs.1.motor.mpr rfl, hs.2⟩) fun s ch r s' _ hs h _ => ?_
  obtain ⟨hs, hc⟩ := hs
  obtain ⟨w, hw, hfn, hexpected, hp⟩ := hs.request
  obtain ⟨i, hi, rfl⟩ := Option.map_eq_some_iff.mp hw
  have hg : (s.waits i).Grows { s.waits i with started := true } :=
    ⟨rfl, rfl, rfl, rfl, rfl, id, [], by simp, fun _ => by simp⟩
  have hrequest : (s.withWaitOf t fun w => { w with started := true }).request t =
      some { s.waits i with started := true } :=
    Option.map_eq_some_iff.mpr ⟨i, hi, withWaitOf_waits hi⟩
  have hu := (withWaitOf_quiet (t := t) (s := s) (f := fun w => { w with started := true })
    fun _ => ⟨rfl, rfl⟩).untouched
  simp only [Motor.perform] at h
  split_ifs at h with hflag
  · obtain ⟨rfl, rfl⟩ := Prod.mk.inj (Option.some.inj h)
    have hmatched : (s.waits i).Matched m := (matched_of_flag hs hc hi).mp hflag
    refine ⟨⟨hs.command, hs.motor, hs.reserved, ?_, hs.last⟩, hc.untouched hu⟩
    exact ⟨_, hrequest, hfn, hexpected, hP _ _ hg hp, hmatched.grows hg⟩
  · obtain ⟨rfl, rfl⟩ := Prod.mk.inj (Option.some.inj h)
    refine ⟨hs.command, by simp, hs.reserved, ?_, hs.last⟩
    exact ⟨_, hrequest, hfn, hexpected, hP _ _ hg hp⟩

/-- After the sleep the thread has the mutex, and saw a reply or the end of the time. -/
theorem wake_rule {fn : Fn} {expected : FrameType} {P : Wait → Prop}
    (hP : ∀ w w', Wait.Grows w w' → P w → P w') :
    m.discipline.Triple t (At t true false n (Asked fn expected P)) wake
      fun received s => At t true true n (Asked fn expected fun w => P w ∧ Saw m received w) s ∧
        Coherent m s := by
  refine Triple.perform (stable_at (closed_asked hP)) (fun _ _ _ => trivial)
    fun s ch r s' hinv hs h _ => ?_
  obtain ⟨w, hw, hfn, hexpected, hp⟩ := hs.request
  obtain ⟨i, hi, rfl⟩ := Option.map_eq_some_iff.mp hw
  simp only [Motor.perform, hi] at h
  split_ifs at h with hm hflag hexpired
  · obtain ⟨rfl, rfl⟩ := Prod.mk.inj (Option.some.inj h)
    have hmatched : (s.waits i).Matched m := (matched_of_flag hs (hinv.free hm) hi).mp hflag
    refine ⟨⟨hs.command, by simp, hs.reserved, ⟨_, hw, hfn, hexpected, hp, hmatched⟩, hs.last⟩, ?_⟩
    exact (hinv.free hm).untouched ⟨rfl, rfl, rfl, rfl, fun _ => ⟨rfl, rfl⟩⟩
  · obtain ⟨rfl, rfl⟩ := Prod.mk.inj (Option.some.inj h)
    -- Nothing that matches was parsed at all, or the flag would be set.
    have hnone : (s.waits i).TimedOut m (s.waits i).expected := ⟨hexpired, fun p hp' htype =>
      absurd ((matched_of_flag hs (hinv.free hm) hi).mpr ⟨p, hp', htype⟩) hflag⟩
    refine ⟨⟨hs.command, by simp, hs.reserved, ⟨_, hw, hfn, hexpected, hp, hnone⟩, hs.last⟩, ?_⟩
    exact (hinv.free hm).untouched ⟨rfl, rfl, rfl, rfl, fun _ => ⟨rfl, rfl⟩⟩

/-- `prepare_wait` leaves a request whose frame is not sent. -/
theorem prepareWait_rule (hQ : Closed Q) (fn : Fn) (expected : FrameType) :
    m.discipline.Triple t (At t true false n Q) (prepareWait fn expected)
      fun _ => At t true false n (Asked fn expected fun w => w.tag = none) :=
  Triple.bind (lockMotor_rule hQ) fun _ =>
    Triple.bind (prepare_rule hQ fn expected) fun _ =>
      unlockMotor_rule (closed_asked fun _ _ hg h => hg.tag.trans h)

/-- **Waiting**: success means that the request is matched, a timeout that it was not in time. -/
theorem waitForResponse_rule {fn : Fn} {expected : FrameType} {P : Wait → Prop} (timeoutMs : ℕ)
    (hP : ∀ w w', Wait.Grows w w' → P w → P w') :
    m.discipline.Triple t (At t true false n (Asked fn expected P)) (waitForResponse timeoutMs)
      fun r => At t true false n (Asked fn expected fun w => P w ∧ Saw m (r = .success) w) := by
  have hsaw : ∀ received w w', Wait.Grows w w' → P w ∧ Saw m received w →
      P w' ∧ Saw m received w' := fun received w w' hg h =>
    ⟨hP w w' hg h.1, saw_grows w w' hg h.2⟩
  refine Triple.bind (lockMotor_rule (closed_asked hP)) fun _ =>
    Triple.bind (startWait_rule timeoutMs hP) fun ready => ?_
  have hwake : m.discipline.Triple t (Started m t n fn expected P ready)
      (if ready then pure true else wake) fun received s =>
        At t true true n (Asked fn expected fun w => P w ∧ Saw m received w) s ∧
          Coherent m s := by
    cases ready with
    | true => exact Triple.ret fun s hs => hs
    | false => exact wake_rule hP
  refine Triple.bind hwake fun received =>
    Triple.bind (unlockMotor_rule (closed_asked (hsaw received))) fun _ => Triple.ret fun s hs => ?_
  cases received <;> exact hs

/-! ### Reading a parameter -/

/-- A waiting command that was woken reads the last parameter reply. -/
theorem readParam_rule {fn : Fn} :
    m.discipline.Triple t (fun s => At t true true n (Asked fn .readParam (Wait.Matched m)) s ∧
        Coherent m s) readParam
      fun v s => At t true true n (Asked fn .readParam fun w =>
        ∀ paramId, w.ReadValue m paramId (if v.1 = paramId then some v.2 else none)) s ∧
          Coherent m s := by
  refine Triple.perform (stable_coherent (closed_asked fun _ _ hg h => h.grows hg))
    (fun _ _ _ => trivial) fun s ch v s' _ hs h _ => ?_
  obtain ⟨hs, hc⟩ := hs
  obtain ⟨w, hw, hfn, hexpected, p, hp, htype⟩ := hs.request
  obtain ⟨i, hi, rfl⟩ := Option.map_eq_some_iff.mp hw
  obtain ⟨rfl, rfl⟩ := Prod.mk.inj (Option.some.inj h)
  refine ⟨⟨hs.command, hs.motor, hs.reserved, ⟨_, hw, hfn, hexpected, fun paramId => ?_⟩, hs.last⟩,
    hc⟩
  -- The frame that matched is a parameter reply, so there is a last one.
  have hmem : p ∈ m.paramReplies (s.waits i).parsed := by
    rw [hexpected] at htype
    exact List.mem_filter.mpr ⟨hp, by simp [htype]⟩
  obtain ⟨q, hq⟩ := Option.isSome_iff_exists.mp
    (List.getLast?_isSome.mpr (List.ne_nil_of_mem hmem))
  obtain ⟨hindex, hpayload⟩ := (hc i (hs.last rfl i hi)).param q hq
  refine ⟨_, q, List.prefix_rfl, hq, ?_⟩
  rw [hindex, hpayload]

/-! ### Parsing a frame -/

/-- What parsing a frame does to the parameter pair. -/
def StoresParam (type : FrameType) (frame : CanFrame) (status status' : MotorStatus) : Prop :=
  if type = .readParam then
    status'.readParamIndex = rsUnpackUint16 (frame.data.byte 1) (frame.data.byte 0) ∧
      status'.readParamPayload =
        rsUnpackUint32 (frame.data.byte 7) (frame.data.byte 6) (frame.data.byte 5)
          (frame.data.byte 4)
  else
    status'.readParamIndex = status.readParamIndex ∧
      status'.readParamPayload = status.readParamPayload

/-- The private protocol stores a parameter exactly from a parameter reply. -/
theorem ProtocolPrivate.parseFeedback_param {frame : CanFrame} {status status' : MotorStatus}
    {profile : MotorProfile}
    (h : ProtocolPrivate.parseFeedback frame status profile = some status') :
    StoresParam (ProtocolPrivate.getResponseType frame) frame status status' := by
  have htype : ProtocolPrivate.getResponseType frame =
      FrameType.ofByte (rsGetMsgType (frame.canId &&& canEffMask)) := rfl
  rw [htype]
  simp only [ProtocolPrivate.parseFeedback] at h
  unfold StoresParam
  split at h
  case h_5 => cases h
  all_goals
    obtain rfl := Option.some.inj h
    simp only [*, reduceCtorEq, if_true, if_false, and_self]

/-- So does the MIT protocol. -/
theorem ProtocolMIT.parseFeedback_param {frame : CanFrame} {status status' : MotorStatus}
    {profile : MotorProfile}
    (h : ProtocolMIT.parseFeedback frame status profile = some status') :
    StoresParam (ProtocolMIT.getResponseType frame) frame status status' := by
  simp only [ProtocolMIT.parseFeedback] at h
  unfold StoresParam ProtocolMIT.getResponseType
  split_ifs at h with hfeedback hinfo hparam
  · obtain rfl := Option.some.inj h
    simp [hfeedback.1]
  · obtain rfl := Option.some.inj h
    simp [hinfo.1]
  · obtain rfl := Option.some.inj h
    rw [if_pos hparam.1, if_pos rfl]
    exact ⟨rfl, rfl⟩

/-- So does the motor's own. -/
theorem parseFeedback_param {frame : CanFrame} {status status' : MotorStatus}
    (h : m.protocol.parseFeedback frame status m.profile = some status') :
    StoresParam (m.protocol.getResponseType frame) frame status status' := by
  unfold Motor.protocol at h ⊢
  cases hp : m.protocolType with
  | priv =>
      rw [hp] at h
      exact ProtocolPrivate.parseFeedback_param h
  | mit =>
      rw [hp] at h
      exact ProtocolMIT.parseFeedback_param h

/-- A frame of this type was parsed and the flag is not set for it yet. -/
structure PendingAt (m : Motor) (type : FrameType) (v : MotorVars) (w : Wait) : Prop where
  expected : v.expectedResponseType = w.expected
  flag : v.responseReceived = true ∨ type = w.expected ↔ w.Matched m
  param : ∀ p, (m.paramReplies w.parsed).getLast? = some p →
    v.status.readParamIndex = p.index ∧ v.status.readParamPayload = p.payload

/-- The shared fields are in step with the last request but for the flag, which the frame just
parsed has still to set. -/
def Pending (m : Motor) (type : FrameType) (s : State) : Prop :=
  ∀ i, i + 1 = s.next → PendingAt m type s.vars (s.waits i)

/-- The flag is still to be set while nothing happens to the requests. -/
theorem Pending.untouched {type : FrameType} {s s' : State} (h : Pending m type s)
    (hu : Untouched s s') : Pending m type s' := by
  intro i hi
  obtain ⟨hexpected, hflag, hparam⟩ := h i (hu.next ▸ hi)
  obtain ⟨hp, he⟩ := hu.waits i
  refine ⟨?_, ?_, ?_⟩
  · rw [hu.expected, he, hexpected]
  · rw [hu.flag, he, hflag, Wait.Matched.congr hp he]
  · rw [hp, hu.status]
    exact hparam

/-- The parameter pair after a frame is that of the last parameter reply. -/
theorem param_parsed {w : Wait} {reply : Reply} {inTime : Bool} {status status' : MotorStatus}
    (hparam : ∀ p, (m.paramReplies w.parsed).getLast? = some p →
      status.readParamIndex = p.index ∧ status.readParamPayload = p.payload)
    (hstores : StoresParam (m.protocol.getResponseType reply.frame) reply.frame status status')
    (p : Parsed) (hp : (m.paramReplies (w.parsed ++ [⟨reply, inTime⟩])).getLast? = some p) :
    status'.readParamIndex = p.index ∧ status'.readParamPayload = p.payload := by
  simp only [Motor.paramReplies, List.filter_append] at hp
  unfold StoresParam at hstores
  split_ifs at hstores with htype
  · have hself : [(⟨reply, inTime⟩ : Parsed)].filter (fun p => m.typeOf p == .readParam) =
        [⟨reply, inTime⟩] := by
      simp [Motor.typeOf, htype]
    rw [hself, List.getLast?_concat] at hp
    obtain rfl := Option.some.inj hp
    exact hstores
  · have hself : [(⟨reply, inTime⟩ : Parsed)].filter (fun p => m.typeOf p == .readParam) = [] := by
      simp [Motor.typeOf, htype]
    rw [hself, List.append_nil] at hp
    rw [hstores.1, hstores.2]
    exact hparam p hp

/-- Nothing is pending without a frame. -/
theorem CoherentAt.parsed {v : MotorVars} {w : Wait} {reply : Reply} {inTime : Bool}
    {status : MotorStatus} (h : CoherentAt m v w)
    (hstatus : m.protocol.parseFeedback reply.frame v.status m.profile = some status) :
    PendingAt m (m.protocol.getResponseType reply.frame)
      { v with status := { status with isConnected := true } }
      { w with parsed := w.parsed ++ [⟨reply, inTime⟩] } := by
  refine ⟨h.expected, ?_, fun p hp => ?_⟩
  · simp only [h.flag, Wait.Matched, List.mem_append, List.mem_singleton, or_and_right,
      exists_or, exists_eq_left, Motor.typeOf]
  · exact param_parsed h.param (parseFeedback_param hstatus) p hp

/-- A frame parsed leaves its flag to be set; a refused one leaves the fields in step. -/
theorem parse_rule (hQ : Closed Q) (reply : Reply) :
    m.discipline.Triple t (fun s => (At t c true n Q s ∧ Coherent m s) ∧ s.Delivered reply)
      (parse reply)
      fun parsed s => At t c true n Q s ∧
        if parsed then Pending m (m.protocol.getResponseType reply.frame) s
        else Coherent m s := by
  have hdelivered : m.discipline.Stable t fun s => s.Delivered reply :=
    fun s s' h hr => h.congr hr.received
  refine Triple.perform ((stable_coherent hQ).and hdelivered)
    (fun s _ hs => ⟨hs.1.1.motor.mpr rfl, hs.2⟩) fun s ch r s' hinv hs h _ => ?_
  obtain ⟨⟨hs, hc⟩, -⟩ := hs
  simp only [Motor.perform] at h
  split at h
  next status hstatus =>
    obtain ⟨rfl, rfl⟩ := Prod.mk.inj (Option.some.inj h)
    refine ⟨⟨hs.command, hs.motor, hs.reserved, ?_, hs.last⟩, fun i hi => ?_⟩
    · change Q ((s.locals t).wait.map (s.recordParsed reply).waits)
      cases hw : (s.locals t).wait with
      | none =>
          have hq := hs.request
          rwa [State.request, hw] at hq
      | some i => exact hQ _ _ (recordParsed_grows s reply i) (hs.request_of_wait hw)
    · have hlt : i < s.next := hi ▸ Nat.lt_succ_self i
      simpa [State.recordParsed, State.withVars, hlt] using (hc i hi).parsed hstatus
  next =>
    obtain ⟨rfl, rfl⟩ := Prod.mk.inj (Option.some.inj h)
    exact ⟨hs, hc⟩

/-! ### Telling the waiting thread -/

/-- A thread between `fetch_sub` and the test of what it returned. -/
theorem stable_clearing (hQ : Closed Q) {type : FrameType} {clearing : Bool} :
    m.discipline.Stable t
      fun s => (At t c true n Q s ∧ Pending m type s) ∧ s.clearing = clearing :=
  fun s s' h hr => ⟨stable_held hQ (fun _ _ => Pending.untouched) s s' h.1 hr,
    (hr.clearing (h.1.1.motor.mpr rfl)).trans h.2⟩

/-- The count goes down, and is found positive or not. -/
theorem fetchSub_rule (hQ : Closed Q) (reply : Reply) (type : FrameType) :
    m.discipline.Triple t (fun s => At t c true n Q s ∧ Pending m type s) (fetchSub reply)
      fun prev s => (At t c true n Q s ∧ Pending m type s) ∧ s.clearing = prev.sle 0 := by
  refine Triple.perform (stable_held hQ fun _ _ => Pending.untouched)
    (fun s _ hs => hs.1.motor.mpr rfl) fun s ch prev s' _ hs h _ => ?_
  obtain ⟨hs, hp⟩ := hs
  obtain ⟨rfl, rfl⟩ := Prod.mk.inj (Option.some.inj h)
  refine ⟨⟨⟨hs.command, hs.motor, hs.reserved, hs.request, hs.last⟩, ?_⟩, rfl⟩
  exact hp.untouched ⟨rfl, rfl, rfl, rfl, fun _ => ⟨rfl, rfl⟩⟩

/-- Resetting the counter where its last value was not positive. -/
theorem store_zero_rule (hQ : Closed Q) {type : FrameType} {prev : BitVec 32}
    (hprev : prev.sle 0 = true) :
    m.discipline.Triple t
      (fun s => (At t c true n Q s ∧ Pending m type s) ∧ s.clearing = prev.sle 0) (store 0)
      fun _ s => At t c true n Q s ∧ Pending m type s := by
  refine Triple.perform (stable_clearing hQ)
    (fun s _ hs => .inr ⟨rfl, hs.1.1.motor.mpr rfl, hs.2.trans hprev⟩) fun s ch r s' _ hs h _ => ?_
  obtain ⟨-, rfl⟩ := Prod.mk.inj (Option.some.inj h)
  obtain ⟨⟨hs, hp⟩, -⟩ := hs
  exact ⟨⟨hs.command, hs.motor, hs.reserved, hs.request, hs.last⟩,
    hp.untouched ⟨rfl, rfl, rfl, rfl, fun _ => ⟨rfl, rfl⟩⟩⟩

/-- Setting the counter to the limit. -/
theorem store_limit_rule (hQ : Closed Q) :
    m.discipline.Triple t (At t c b n Q) (store m.overrunLimit) fun _ => At t c b n Q := by
  refine Triple.perform (stable_at hQ) (fun s _ hs => .inl rfl) fun s ch r s' _ hs h _ => ?_
  obtain ⟨-, rfl⟩ := Prod.mk.inj (Option.some.inj h)
  exact ⟨hs.command, hs.motor, hs.reserved, hs.request, hs.last⟩

/-- The type awaited is read. -/
theorem expectedType_rule (hQ : Closed Q) (type : FrameType) :
    m.discipline.Triple t (fun s => At t c true n Q s ∧ Pending m type s) expectedType
      fun e s => At t c true n Q s ∧ Pending m type s ∧ s.vars.expectedResponseType = e := by
  refine Triple.perform (stable_held hQ fun _ _ => Pending.untouched) (fun _ _ _ => trivial)
    fun s ch e s' _ hs h _ => ?_
  obtain ⟨rfl, rfl⟩ := Prod.mk.inj (Option.some.inj h)
  exact ⟨hs.1, hs.2, rfl⟩

/-- A frame of another type leaves nothing to say. -/
theorem Pending.coherent {type : FrameType} {s : State} (h : Pending m type s)
    (htype : type ≠ s.vars.expectedResponseType) : Coherent m s := fun i hi => by
  obtain ⟨hexpected, hflag, hparam⟩ := h i hi
  refine ⟨hexpected, ?_, hparam⟩
  rw [← hflag, or_iff_left (hexpected ▸ htype)]

/-- The flag set, the fields are in step again. -/
theorem notify_rule (hQ : Closed Q) {type : FrameType} :
    m.discipline.Triple t
      (fun s => At t c true n Q s ∧ Pending m type s ∧ s.vars.expectedResponseType = type) notify
      fun _ s => At t c true n Q s ∧ Coherent m s := by
  have hstable : m.discipline.Stable t fun s => At t c true n Q s ∧ Pending m type s ∧
      s.vars.expectedResponseType = type :=
    stable_held hQ fun _ _ hs hu => ⟨hs.1.untouched hu, hu.expected.trans hs.2⟩
  refine Triple.perform hstable (fun s _ hs => hs.1.motor.mpr rfl) fun s ch r s' _ hs h _ => ?_
  obtain ⟨hs, hp, htype⟩ := hs
  obtain ⟨-, rfl⟩ := Prod.mk.inj (Option.some.inj h)
  refine ⟨⟨hs.command, hs.motor, hs.reserved, hs.request, hs.last⟩, fun i hi => ?_⟩
  obtain ⟨hexpected, hflag, hparam⟩ := hp i hi
  have hmatched : (s.waits i).Matched m := hflag.mp (.inr (htype.symm.trans hexpected))
  exact ⟨hexpected, ⟨fun _ => hmatched, fun _ => rfl⟩, hparam⟩

/-- The counter of unknown frames is no field of a request. -/
theorem countUnknown_rule (hQ : Closed Q) :
    m.discipline.Triple t (fun s => At t c true n Q s ∧ Coherent m s) countUnknown
      fun _ s => At t c true n Q s ∧ Coherent m s := by
  refine Triple.perform (stable_coherent hQ) (fun s _ hs => hs.1.motor.mpr rfl)
    fun s ch r s' _ hs h _ => ?_
  obtain ⟨hs, hc⟩ := hs
  obtain ⟨-, rfl⟩ := Prod.mk.inj (Option.some.inj h)
  refine ⟨⟨hs.command, hs.motor, hs.reserved, hs.request, hs.last⟩, fun i hi => ?_⟩
  obtain ⟨hexpected, hflag, hparam⟩ := hc i hi
  exact ⟨hexpected, hflag, hparam⟩

/-! ### Counting -/

/-- A send reserves its place unless it is over the limit. -/
theorem fetchAdd_rule (hQ : Closed Q) :
    m.discipline.Triple t (At t c b 0 Q) fetchAdd
      fun pending => At t c b (if m.overrunLimit.slt pending then 0 else 1) Q := by
  refine Triple.perform (stable_at hQ) (fun _ _ _ => trivial) fun s ch pending s' _ hs h _ => ?_
  obtain ⟨rfl, rfl⟩ := Prod.mk.inj (Option.some.inj h)
  refine ⟨hs.command, hs.motor, ?_, hs.request, hs.last⟩
  dsimp only
  split_ifs
  · exact hs.reserved
  · rw [List.count_cons_self, hs.reserved]

end

end Robstride
