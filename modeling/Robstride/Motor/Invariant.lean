import Mathlib.Data.List.Count
import Robstride.Motor.System

/-!
# Motor — Invariant

What every run of the system keeps, whoever calls what: the rely–guarantee `Discipline` of the
motor.

`motor_mutex_` guards the fields that `process_frame` and a waiting command share.  While it is
free, the flag says whether a frame of the expected type was parsed since the last
`prepare_wait`, and `status_` holds the last parameter reply parsed since (`Coherent`).
`command_mutex_` makes the last request the one its owner waits for.  So what a function returns
is what its own request saw (`Honest`).
-/

namespace Robstride

open Support Support.Pool

/-! ### What a request saw -/

section

variable (m : Motor)

/-- The type by which a waiting command knows a frame. -/
def Motor.typeOf (p : Parsed) : FrameType := m.protocol.getResponseType p.reply.frame

/-- A frame of the type the request waits for was parsed. -/
def Wait.Matched (w : Wait) : Prop := ∃ p ∈ w.parsed, m.typeOf p = w.expected

/-- No frame of the type was parsed before the time was over, and it is over. -/
def Wait.TimedOut (w : Wait) (type : FrameType) : Prop :=
  w.expired = true ∧ ∀ p ∈ w.parsed, m.typeOf p = type → p.inTime = false

/-- The parameter replies among the frames. -/
def Motor.paramReplies (ps : List Parsed) : List Parsed :=
  ps.filter fun p => m.typeOf p == .readParam

/-- The index and the payload of a parameter reply. -/
def Parsed.index (p : Parsed) : BitVec 16 :=
  rsUnpackUint16 (p.reply.frame.data.byte 1) (p.reply.frame.data.byte 0)

/-- The value in the bytes of a parameter reply. -/
def Parsed.payload (p : Parsed) : BitVec 32 :=
  rsUnpackUint32 (p.reply.frame.data.byte 7) (p.reply.frame.data.byte 6)
    (p.reply.frame.data.byte 5) (p.reply.frame.data.byte 4)

/-- The value is that of the last of the parameter replies a call of `read_parameter_raw` had
seen when it read `status_`, if its index is the one asked for. -/
def Wait.ReadValue (w : Wait) (paramId : BitVec 16) (v : Option (BitVec 32)) : Prop :=
  ∃ seen p, seen <+: w.parsed ∧ (m.paramReplies seen).getLast? = some p ∧
    v = if p.index = paramId then some p.payload else none

/-- What a request may have led its function to return. -/
def Wait.Honest (w : Wait) : Ret → Prop
  | .result r => r = .success → w.Matched m
  | .value v => ∀ paramId, w.fn = .readParameterRaw paramId → w.tag ≠ none →
      v = none ∧ w.TimedOut m .readParam ∨ w.ReadValue m paramId v

/-- A request as other threads and the environment change it. -/
structure Wait.Grows (w w' : Wait) : Prop where
  fn : w'.fn = w.fn
  thread : w'.thread = w.thread
  expected : w'.expected = w.expected
  tag : w'.tag = w.tag
  result : w'.result = w.result
  expired : w.expired = true → w'.expired = true
  parsed : ∃ more, w'.parsed = w.parsed ++ more ∧
    (w.expired = true → ∀ p ∈ more, p.inTime = false)

/-- A request as it is has lost nothing. -/
theorem Wait.Grows.refl (w : Wait) : w.Grows w :=
  ⟨rfl, rfl, rfl, rfl, rfl, id, [], by simp, fun _ => by simp⟩

/-- Growing twice is growing. -/
theorem Wait.Grows.trans {w w' w'' : Wait} (h : w.Grows w') (h' : w'.Grows w'') : w.Grows w'' := by
  obtain ⟨more, hmore, hlate⟩ := h.parsed
  obtain ⟨more', hmore', hlate'⟩ := h'.parsed
  refine ⟨h'.fn.trans h.fn, h'.thread.trans h.thread, h'.expected.trans h.expected,
    h'.tag.trans h.tag, h'.result.trans h.result, h'.expired ∘ h.expired, more ++ more', ?_, ?_⟩
  · rw [hmore', hmore, List.append_assoc]
  · intro he p hp
    rcases List.mem_append.mp hp with hp | hp
    · exact hlate he p hp
    · exact hlate' (h.expired he) p hp

variable {m}

/-- A reply of the awaited type stays one. -/
theorem Wait.Matched.grows {w w' : Wait} (h : w.Matched m) (hg : w.Grows w') : w'.Matched m := by
  obtain ⟨p, hp, htype⟩ := h
  obtain ⟨more, hmore, -⟩ := hg.parsed
  exact ⟨p, by rw [hmore]; exact List.mem_append_left _ hp, by rw [hg.expected, htype]⟩

/-- A request that timed out stays timed out. -/
theorem Wait.TimedOut.grows {w w' : Wait} {type : FrameType} (h : w.TimedOut m type)
    (hg : w.Grows w') : w'.TimedOut m type := by
  obtain ⟨more, hmore, hlate⟩ := hg.parsed
  refine ⟨hg.expired h.1, fun p hp htype => ?_⟩
  rw [hmore] at hp
  rcases List.mem_append.mp hp with hp | hp
  · exact h.2 p hp htype
  · exact hlate h.1 p hp

/-- A value read stays the one that was read. -/
theorem Wait.ReadValue.grows {w w' : Wait} {paramId : BitVec 16} {v : Option (BitVec 32)}
    (h : w.ReadValue m paramId v) (hg : w.Grows w') : w'.ReadValue m paramId v := by
  obtain ⟨seen, p, hseen, hlast, hv⟩ := h
  obtain ⟨more, hmore, -⟩ := hg.parsed
  exact ⟨seen, p, hmore ▸ hseen.trans (List.prefix_append _ _), hlast, hv⟩

/-- What was returned stays honest. -/
theorem Wait.Honest.grows {w w' : Wait} {ret : Ret} (h : w.Honest m ret) (hg : w.Grows w') :
    w'.Honest m ret := by
  cases ret with
  | result r => exact fun hr => (h hr).grows hg
  | value v =>
      intro paramId hfn htag
      rw [hg.fn] at hfn
      rw [hg.tag] at htag
      exact (h paramId hfn htag).imp (fun ht => ⟨ht.1, ht.2.grows hg⟩) fun hv => hv.grows hg

end

/-! ### The invariant -/

section

variable (m : Motor)

/-- The shared fields say what was parsed since the last `prepare_wait`. -/
structure CoherentAt (v : MotorVars) (w : Wait) : Prop where
  expected : v.expectedResponseType = w.expected
  flag : v.responseReceived = true ↔ w.Matched m
  param : ∀ p, (m.paramReplies w.parsed).getLast? = some p →
    v.status.readParamIndex = p.index ∧ v.status.readParamPayload = p.payload

/-- The shared fields are in step with the last request. -/
def Coherent (s : State) : Prop := ∀ i, i + 1 = s.next → CoherentAt m s.vars (s.waits i)

/-- The motor received the frame that the reply answers. -/
def State.Delivered (s : State) (reply : Reply) : Prop :=
  ∀ n, reply.answers = some n → n ∈ s.received

/-- Every frame parsed came over the line, and the shared fields are in step with the last
request. -/
structure Inv (s : State) : Prop where
  arrived : ∀ n ∈ s.received, n < s.arrived
  replies : ∀ reply ∈ s.replies, s.Delivered reply
  parsed : ∀ i, ∀ p ∈ (s.waits i).parsed, s.Delivered p.reply
  /-- A thread's request is its own, and has not returned. -/
  owner : ∀ t i, (s.locals t).wait = some i →
    i < s.next ∧ (s.waits i).thread = t ∧ (s.waits i).result = none
  honest : ∀ i ret, (s.waits i).result = some ret → (s.waits i).Honest m ret
  /-- What `motor_mutex_` guards while it is free. -/
  free : s.motorMutex = none → Coherent m s

/-- What `motor_mutex_` guards is as before. -/
structure Untouched (s s' : State) : Prop where
  status : s'.vars.status = s.vars.status
  expected : s'.vars.expectedResponseType = s.vars.expectedResponseType
  flag : s'.vars.responseReceived = s.vars.responseReceived
  next : s'.next = s.next
  waits : ∀ i, (s'.waits i).parsed = (s.waits i).parsed ∧
    (s'.waits i).expected = (s.waits i).expected

/-- Nothing has happened to the requests. -/
theorem Untouched.refl (s : State) : Untouched s s := ⟨rfl, rfl, rfl, rfl, fun _ => ⟨rfl, rfl⟩⟩

/-- Two such changes are one. -/
theorem Untouched.trans {s s' s'' : State} (h : Untouched s s') (h' : Untouched s' s'') :
    Untouched s s'' where
  status := h'.status.trans h.status
  expected := h'.expected.trans h.expected
  flag := h'.flag.trans h.flag
  next := h'.next.trans h.next
  waits i := ⟨(h'.waits i).1.trans (h.waits i).1, (h'.waits i).2.trans (h.waits i).2⟩

/-- What thread `t` relies on. -/
structure Rely (t : ℕ) (s s' : State) : Prop where
  locals : s'.locals t = s.locals t
  command : ∀ n, s'.commandMutex = some (t, n) ↔ s.commandMutex = some (t, n)
  motor : s'.motorMutex = some t ↔ s.motorMutex = some t
  reserved : s'.reserved.count t = s.reserved.count t
  received : ∀ n ∈ s.received, n ∈ s'.received
  /-- Its request, which no other thread returns from or transmits for. -/
  wait : ∀ i, (s.locals t).wait = some i → (s.waits i).Grows (s'.waits i)
  /-- Under `command_mutex_` no other thread prepares a request. -/
  active : (∃ n, s.commandMutex = some (t, n)) → s'.next = s.next
  held : s.motorMutex = some t → Untouched s s'
  clearing : s.motorMutex = some t → s'.clearing = s.clearing

/-- A thread bears that nothing happens. -/
theorem rely_refl (t : ℕ) (s : State) : Rely t s s where
  locals := rfl
  command _ := Iff.rfl
  motor := Iff.rfl
  reserved := rfl
  received _ := id
  wait _ _ := .refl _
  active _ := rfl
  held _ := .refl s
  clearing _ := rfl

/-- A thread bears one change after another. -/
theorem rely_trans {t : ℕ} {s s' s'' : State} (h : Rely t s s') (h' : Rely t s' s'') :
    Rely t s s'' where
  locals := h'.locals.trans h.locals
  command n := (h'.command n).trans (h.command n)
  motor := h'.motor.trans h.motor
  reserved := h'.reserved.trans h.reserved
  received n hn := h'.received n (h.received n hn)
  wait i hi := (h.wait i hi).trans (h'.wait i (h.locals ▸ hi))
  active := fun ⟨n, hn⟩ => (h'.active ⟨n, (h.command n).mpr hn⟩).trans (h.active ⟨n, hn⟩)
  held hm := (h.held hm).trans (h'.held (h.motor.mpr hm))
  clearing hm := (h'.clearing (h.motor.mpr hm)).trans (h.clearing hm)

variable {m}

/-- Whether a reply matched is a matter of the frames parsed and the type awaited. -/
theorem Wait.Matched.congr {w w' : Wait} (hp : w'.parsed = w.parsed)
    (he : w'.expected = w.expected) : w'.Matched m ↔ w.Matched m := by
  simp only [Wait.Matched, hp, he]

/-- What is guarded and as before is as coherent as before. -/
theorem Coherent.untouched {s s' : State} (h : Coherent m s) (hu : Untouched s s') :
    Coherent m s' := by
  intro i hi
  obtain ⟨hexpected, hflag, hparam⟩ := h i (hu.next ▸ hi)
  obtain ⟨hp, he⟩ := hu.waits i
  refine ⟨?_, ?_, ?_⟩
  · rw [hu.expected, he, hexpected]
  · rw [hu.flag, hflag, Wait.Matched.congr hp he]
  · rw [hp, hu.status]
    exact hparam

/-- What holds whenever thread `t` is about to perform the action. -/
def Motor.pre (m : Motor) (s : State) (t : ℕ) : Action → Prop
  | .leave _ ret => ∀ i, (s.locals t).wait = some i → (s.waits i).Honest m ret
  | .unlockMotor => Coherent m s
  | .transmit fn _ => (fn.isSend → t ∈ s.reserved) ∧
      ∀ i, (s.locals t).wait = some i → (s.waits i).tag = none
  | .prepare _ _ => s.motorMutex = some t ∧ ∃ n, s.commandMutex = some (t, n)
  | .startWait _ => s.motorMutex = some t ∧ Coherent m s
  | .parse reply => s.motorMutex = some t ∧ s.Delivered reply
  | .fetchSub _ | .notify | .countUnknown => s.motorMutex = some t
  | .store value =>
      value = m.overrunLimit ∨ value = 0 ∧ s.motorMutex = some t ∧ s.clearing = true
  | _ => True

/-! ### Steps that leave the guarded fields alone -/

/-- A step of thread `t` that changes only its own part of the record, and counters. -/
structure Quiet (t : ℕ) (s s' : State) : Prop where
  locals : ∀ u, u ≠ t → s'.locals u = s.locals u
  command : s'.commandMutex = s.commandMutex
  motor : s'.motorMutex = s.motorMutex
  reserved : ∀ u, u ≠ t → s'.reserved.count u = s.reserved.count u
  arrived : s'.arrived = s.arrived
  received : s'.received = s.received
  replies : s'.replies = s.replies
  untouched : Untouched s s'
  waits : ∀ i, (s.locals t).wait ≠ some i → s'.waits i = s.waits i
  clearing : s.motorMutex ≠ some t → s'.clearing = s.clearing

/-- To do nothing is quiet. -/
theorem Quiet.refl (t : ℕ) (s : State) : Quiet t s s :=
  ⟨fun _ _ => rfl, rfl, rfl, fun _ _ => rfl, rfl, rfl, rfl, .refl s, fun _ _ => rfl, fun _ => rfl⟩

/-- A request is one thread's. -/
theorem Inv.wait_ne {s : State} (hinv : Inv m s) {t u i : ℕ} (hu : (s.locals u).wait = some i)
    (hne : u ≠ t) : (s.locals t).wait ≠ some i := fun ht =>
  hne ((hinv.owner u i hu).2.1.symm.trans (hinv.owner t i ht).2.1)

/-- The other threads bear a quiet step. -/
theorem Quiet.rely {t : ℕ} {s s' : State} (h : Quiet t s s') (hinv : Inv m s) {u : ℕ}
    (hu : u ≠ t) : Rely u s s' where
  locals := h.locals u hu
  command n := by rw [h.command]
  motor := by rw [h.motor]
  reserved := h.reserved u hu
  received n hn := h.received ▸ hn
  wait i hi := by
    rw [h.waits i (hinv.wait_ne hi hu)]
    exact .refl _
  active _ := h.untouched.next
  held _ := h.untouched
  clearing hm := h.clearing fun ht => hu (Option.some.inj (hm.symm.trans ht))

/-- A frame delivered stays delivered while no receipt is forgotten. -/
theorem State.Delivered.congr {s s' : State} {reply : Reply} (h : s.Delivered reply)
    (hr : ∀ n ∈ s.received, n ∈ s'.received) : s'.Delivered reply :=
  fun n hn => hr n (h n hn)

/-- A quiet step keeps the invariant, if the thread's own request stays its own and honest. -/
theorem Quiet.inv {t : ℕ} {s s' : State} (h : Quiet t s s') (hinv : Inv m s)
    (howner : ∀ i, (s'.locals t).wait = some i →
      (s.locals t).wait = some i ∧ (s'.waits i).thread = t ∧ (s'.waits i).result = none)
    (hhonest : ∀ i ret, (s.locals t).wait = some i → (s'.waits i).result = some ret →
      (s'.waits i).Honest m ret) : Inv m s' where
  arrived := by
    rw [h.received, h.arrived]
    exact hinv.arrived
  replies reply hreply := by
    rw [h.replies] at hreply
    exact (hinv.replies reply hreply).congr fun n hn => h.received ▸ hn
  parsed i p hp := by
    rw [(h.untouched.waits i).1] at hp
    exact (hinv.parsed i p hp).congr fun n hn => h.received ▸ hn
  owner u i hi := by
    rw [h.untouched.next]
    rcases eq_or_ne u t with rfl | hu
    · obtain ⟨hold, hthread, hresult⟩ := howner i hi
      exact ⟨(hinv.owner u i hold).1, hthread, hresult⟩
    · rw [h.locals u hu] at hi
      rw [h.waits i (hinv.wait_ne hi hu)]
      exact hinv.owner u i hi
  honest i ret hret := by
    by_cases hi : (s.locals t).wait = some i
    · exact hhonest i ret hi hret
    · rw [h.waits i hi] at hret ⊢
      exact hinv.honest i ret hret
  free hm := by
    rw [h.motor] at hm
    exact (hinv.free hm).untouched h.untouched

/-- A quiet step that does not change the thread's request either. -/
theorem Quiet.inv_of_same {t : ℕ} {s s' : State} (h : Quiet t s s') (hinv : Inv m s)
    (hwait : (s'.locals t).wait = (s.locals t).wait) (hwaits : s'.waits = s.waits) :
    Inv m s' := by
  refine h.inv hinv (fun i hi => ?_) fun i ret hi hret => ?_
  · rw [hwait] at hi
    rw [hwaits]
    exact ⟨hi, (hinv.owner t i hi).2⟩
  · rw [hwaits] at hret ⊢
    exact hinv.honest i ret hret

/-- Two quiet steps, the request the same, are one. -/
theorem Quiet.trans {t : ℕ} {s s' s'' : State} (h : Quiet t s s') (h' : Quiet t s' s'')
    (hwait : (s'.locals t).wait = (s.locals t).wait) : Quiet t s s'' where
  locals u hu := (h'.locals u hu).trans (h.locals u hu)
  command := h'.command.trans h.command
  motor := h'.motor.trans h.motor
  reserved u hu := (h'.reserved u hu).trans (h.reserved u hu)
  arrived := h'.arrived.trans h.arrived
  received := h'.received.trans h.received
  replies := h'.replies.trans h.replies
  untouched := h.untouched.trans h'.untouched
  waits i hi := (h'.waits i (hwait ▸ hi)).trans (h.waits i hi)
  clearing hm := (h'.clearing (h.motor ▸ hm)).trans (h.clearing hm)

section

variable {t : ℕ} {s s' : State}

/-- To change what the thread itself is doing is quiet. -/
theorem withLocal_quiet (f : Local → Local) : Quiet t s (s.withLocal t f) :=
  ⟨fun _ hu => Function.update_of_ne hu _ _, rfl, rfl, fun _ _ => rfl, rfl, rfl, rfl,
    ⟨rfl, rfl, rfl, rfl, fun _ => ⟨rfl, rfl⟩⟩, fun _ _ => rfl, fun _ => rfl⟩

/-- What the thread is doing now. -/
@[simp] theorem withLocal_locals (f : Local → Local) :
    (s.withLocal t f).locals t = f (s.locals t) := Function.update_self ..

/-- The thread's request now. -/
theorem withWaitOf_waits {f : Wait → Wait} {i : ℕ} (hi : (s.locals t).wait = some i) :
    (s.withWaitOf t f).waits i = f (s.waits i) := if_pos hi

/-- To change the thread's request is quiet, but for its frames and its type. -/
theorem withWaitOf_quiet {f : Wait → Wait}
    (hf : ∀ w, (f w).parsed = w.parsed ∧ (f w).expected = w.expected) :
    Quiet t s (s.withWaitOf t f) := by
  refine ⟨fun _ _ => rfl, rfl, rfl, fun _ _ => rfl, rfl, rfl, rfl, ⟨rfl, rfl, rfl, rfl, fun i => ?_⟩,
    fun i hi => if_neg hi, fun _ => rfl⟩
  simp only [State.withWaitOf]
  split_ifs
  · exact hf (s.waits i)
  · exact ⟨rfl, rfl⟩

/-- To put a frame on the line is quiet. -/
theorem recordSent_quiet (fn : Fn) (frame : CanFrame) : Quiet t s (s.recordSent t fn frame) :=
  ⟨fun _ _ => rfl, rfl, rfl, fun _ _ => rfl, rfl, rfl, rfl,
    ⟨rfl, rfl, rfl, rfl, fun _ => ⟨rfl, rfl⟩⟩, fun _ _ => rfl, fun _ => rfl⟩

/-- To use a reservation up is quiet. -/
theorem release_quiet (fn : Fn) : Quiet t s (s.release t fn) := by
  refine ⟨fun _ _ => rfl, rfl, rfl, fun u hu => ?_, rfl, rfl, rfl,
    ⟨rfl, rfl, rfl, rfl, fun _ => ⟨rfl, rfl⟩⟩, fun _ _ => rfl, fun _ => rfl⟩
  simp only [State.release]
  split_ifs
  · exact List.count_erase_of_ne hu
  · rfl

/-- To end a request is quiet. -/
theorem close_quiet (fn : Fn) : Quiet t s (s.close t fn) := by
  unfold State.close
  split_ifs
  · have hq := withLocal_quiet (t := t) (s := s) fun l => { l with wait := none, setup := none }
    exact ⟨hq.locals, rfl, rfl, fun _ _ => rfl, rfl, rfl, rfl,
      ⟨rfl, rfl, rfl, rfl, fun _ => ⟨rfl, rfl⟩⟩, fun _ _ => rfl, fun _ => rfl⟩
  · exact withLocal_quiet _

/-- A thread that returned has no request. -/
@[simp] theorem close_wait (fn : Fn) : ((s.close t fn).locals t).wait = none := by
  unfold State.close
  split_ifs <;> simp [State.withLocal]

/-! ### Every action keeps the invariant -/

/-- What an action must do for the run to go on. -/
def Keeps (m : Motor) (t : ℕ) (s s' : State) : Prop := Inv m s' ∧ ∀ u, u ≠ t → Rely u s s'

/-- A quiet step that leaves the requests alone keeps the invariant. -/
theorem Quiet.keeps (h : Quiet t s s') (hinv : Inv m s)
    (hwait : (s'.locals t).wait = (s.locals t).wait) (hwaits : s'.waits = s.waits) :
    Keeps m t s s' :=
  ⟨h.inv_of_same hinv hwait hwaits, fun _ hu => h.rely hinv hu⟩

/-- A call begins. -/
theorem enter_keeps {fn : Fn} {ch : Choice} {r : Unit} (hinv : Inv m s)
    (h : m.perform t (.enter fn) ch s = some (r, s')) : Keeps m t s s' := by
  have hq : Quiet t s s' ∧ (s'.locals t).wait = none ∧ s'.waits = s.waits := by
    simp only [Motor.perform] at h
    split_ifs at h
    · obtain ⟨-, rfl⟩ := Prod.mk.inj (Option.some.inj h)
      have hq := withLocal_quiet (t := t) (s := s) fun l =>
        { l with wait := none, setup := some s.setups }
      exact ⟨⟨hq.locals, rfl, rfl, fun _ _ => rfl, rfl, rfl, rfl,
        ⟨rfl, rfl, rfl, rfl, fun _ => ⟨rfl, rfl⟩⟩, fun _ _ => rfl, fun _ => rfl⟩,
        by simp [State.withLocal], rfl⟩
    · obtain ⟨-, rfl⟩ := Prod.mk.inj (Option.some.inj h)
      exact ⟨withLocal_quiet _, by simp, rfl⟩
  obtain ⟨hq, hwait, hwaits⟩ := hq
  refine ⟨hq.inv hinv (fun i hi => by simp [hwait] at hi) fun i ret hi hret => ?_,
    fun u hu => hq.rely hinv hu⟩
  rw [hwaits] at hret ⊢
  exact hinv.honest i ret hret

/-- A call returns; what it returns is honest by the precondition. -/
theorem leave_keeps {fn : Fn} {ret : Ret} {ch : Choice} {r : Unit} (hinv : Inv m s)
    (hpre : m.pre s t (.leave fn ret)) (h : m.perform t (.leave fn ret) ch s = some (r, s')) :
    Keeps m t s s' := by
  simp only [Motor.perform] at h
  obtain ⟨-, rfl⟩ := Prod.mk.inj (Option.some.inj h)
  have hq := (withWaitOf_quiet (t := t) (s := s) (f := fun w => { w with result := some ret })
    fun _ => ⟨rfl, rfl⟩).trans (close_quiet fn) rfl
  refine ⟨hq.inv hinv (fun i hi => ?_) fun i ret' hi hret => ?_, fun u hu => hq.rely hinv hu⟩
  · rw [close_wait] at hi
    cases hi
  · rw [close_waits, withWaitOf_waits hi] at hret ⊢
    -- The request is as it was but for its result, which is not part of what it saw.
    obtain rfl := Option.some.inj hret
    exact hpre i hi

/-- A transmit: the line grows, and the thread's request gets the number of its frame. -/
theorem transmit_keeps {fn : Fn} {frame : CanFrame} {ch : Choice} {r : Result} (hinv : Inv m s)
    (h : m.perform t (.transmit fn frame) ch s = some (r, s')) : Keeps m t s s' := by
  rcases perform_transmit h with ⟨-, rfl⟩ | ⟨-, rfl⟩
  · have hq := ((recordSent_quiet (t := t) (s := s) fn frame).trans
      (withWaitOf_quiet (f := fun w => { w with tag := some s.sent.length })
        fun _ => ⟨rfl, rfl⟩) rfl).trans (release_quiet fn) rfl
    have hw : ∀ i, (s.locals t).wait = some i → ((((s.recordSent t fn frame).withWaitOf t
        fun w => { w with tag := some s.sent.length }).release t fn).waits i) =
          { s.waits i with tag := some s.sent.length } := fun i hi =>
      withWaitOf_waits (s := s.recordSent t fn frame)
        (f := fun w => { w with tag := some s.sent.length }) hi
    refine ⟨hq.inv hinv (fun i hi => ?_) fun i ret hi hret => ?_, fun u hu => hq.rely hinv hu⟩
    · obtain ⟨-, hthread, hresult⟩ := hinv.owner t i hi
      rw [hw i hi]
      exact ⟨hi, hthread, hresult⟩
    · -- A request that is still its thread's has not returned.
      obtain ⟨-, -, hresult⟩ := hinv.owner t i hi
      rw [hw i hi] at hret
      have hnone := hresult.symm.trans hret
      cases hnone
  · exact (release_quiet fn).keeps hinv rfl rfl

/-- A step on the two mutexes that takes nothing from another thread. -/
theorem mutex_keeps {c : Option (ℕ × ℕ)} {x : Option ℕ} (hinv : Inv m s)
    (hc : ∀ u, u ≠ t → ∀ n, c = some (u, n) ↔ s.commandMutex = some (u, n))
    (hx : ∀ u, u ≠ t → (x = some u ↔ s.motorMutex = some u)) (hfree : x = none → Coherent m s) :
    Keeps m t s { s with commandMutex := c, motorMutex := x } := by
  have hu : Untouched s { s with commandMutex := c, motorMutex := x } :=
    ⟨rfl, rfl, rfl, rfl, fun _ => ⟨rfl, rfl⟩⟩
  refine ⟨⟨hinv.arrived, hinv.replies, hinv.parsed, hinv.owner, hinv.honest,
    fun hx => (hfree hx).untouched hu⟩, fun u hne => ?_⟩
  exact ⟨rfl, hc u hne, hx u hne, rfl, fun _ => id, fun _ _ => .refl _, fun _ => rfl, fun _ => hu,
    fun _ => rfl⟩

/-- A step under `motor_mutex_` on the fields it guards. -/
theorem vars_keeps (f : MotorVars → MotorVars) (hinv : Inv m s) (hm : s.motorMutex = some t) :
    Keeps m t s (s.withVars f) := by
  refine ⟨⟨hinv.arrived, hinv.replies, hinv.parsed, hinv.owner, hinv.honest, fun hx => ?_⟩,
    fun u hne => ?_⟩
  · exact absurd (hm.symm.trans hx) (by simp)
  · refine ⟨rfl, fun _ => Iff.rfl, Iff.rfl, rfl, fun _ => id, fun _ _ => .refl _, fun _ => rfl,
      fun hx => ?_, fun _ => rfl⟩
    exact absurd (Option.some.inj (hx.symm.trans hm)) hne

/-- Every request only gains a frame. -/
theorem recordParsed_grows (s : State) (reply : Reply) (i : ℕ) :
    (s.waits i).Grows ((s.recordParsed reply).waits i) := by
  simp only [State.recordParsed]
  split_ifs with hi
  · exact ⟨rfl, rfl, rfl, rfl, rfl, id, [_], rfl, fun he => by simp [he]⟩
  · exact .refl _

/-- A frame parsed under `motor_mutex_`. -/
theorem record_keeps {reply : Reply} (hinv : Inv m s) (hm : s.motorMutex = some t)
    (hreply : s.Delivered reply) :
    Keeps m t s (s.recordParsed reply) := by
  have hg := recordParsed_grows s reply
  refine ⟨⟨hinv.arrived, hinv.replies, fun i p hp => ?_, fun u i hi => ?_, fun i ret hret => ?_,
    fun hx => ?_⟩, fun u hne => ?_⟩
  · simp only [State.recordParsed] at hp
    split_ifs at hp
    · rcases List.mem_append.mp hp with hp | hp
      · exact hinv.parsed i p hp
      · obtain rfl := List.mem_singleton.mp hp
        exact hreply
    · exact hinv.parsed i p hp
  · rw [(hg i).thread, (hg i).result]
    exact hinv.owner u i hi
  · rw [(hg i).result] at hret
    exact (hinv.honest i ret hret).grows (hg i)
  · exact absurd (hm.symm.trans hx) (by simp)
  · refine ⟨rfl, fun _ => Iff.rfl, Iff.rfl, rfl, fun _ => id, fun i _ => hg i, fun _ => rfl,
      fun hx => ?_, fun _ => rfl⟩
    exact absurd (Option.some.inj (hx.symm.trans hm)) hne

/-- `prepare_wait` begins a request that nothing has answered. -/
theorem prepare_keeps {fn : Fn} {expected : FrameType} {ch : Choice} {r : Unit} (hinv : Inv m s)
    (hpre : m.pre s t (.prepare fn expected))
    (h : m.perform t (.prepare fn expected) ch s = some (r, s')) : Keeps m t s s' := by
  obtain ⟨hm, n, hn⟩ := hpre
  simp only [Motor.perform] at h
  obtain ⟨-, rfl⟩ := Prod.mk.inj (Option.some.inj h)
  have hold : ∀ i, i ≠ s.next → ∀ w, Function.update s.waits s.next w i = s.waits i :=
    fun i hi w => Function.update_of_ne hi _ _
  -- The new request has seen nothing and belongs to the thread; the others are as before.
  refine ⟨⟨hinv.arrived, hinv.replies, fun i p hp => ?_, fun u i hi => ?_, fun i ret hret => ?_,
    fun hx => ?_⟩, fun u hne => ?_⟩
  · by_cases hi : i = s.next
    · subst hi
      simp [State.withLocal, State.withWait, State.withVars, noWait] at hp
    · simp only [State.withLocal, State.withWait, State.withVars, hold i hi] at hp
      exact hinv.parsed i p hp
  · by_cases hu : u = t
    · subst hu
      obtain rfl : s.next = i := by
        simpa [State.withLocal, State.withWait, State.withVars] using hi
      simp [State.withLocal, State.withWait, State.withVars, noWait]
    · simp only [State.withLocal, Function.update_of_ne hu] at hi
      obtain ⟨hlt, hthread⟩ := hinv.owner u i hi
      simp only [State.withLocal, State.withWait, State.withVars, hold i hlt.ne]
      exact ⟨hlt.trans (Nat.lt_succ_self _), hthread⟩
  · by_cases hi : i = s.next
    · subst hi
      simp [State.withLocal, State.withWait, State.withVars, noWait] at hret
    · simp only [State.withLocal, State.withWait, State.withVars, hold i hi] at hret ⊢
      exact hinv.honest i ret hret
  · exact absurd (hm.symm.trans hx) (by simp)
  · refine ⟨Function.update_of_ne hne _ _, fun _ => Iff.rfl, Iff.rfl, rfl, fun _ => id,
      fun i hi => ?_, fun hx => ?_, fun hx => ?_, fun _ => rfl⟩
    · simp only [State.withLocal, State.withWait, State.withVars, hold i (hinv.owner u i hi).1.ne]
      exact .refl _
    · obtain ⟨n', hn'⟩ := hx
      exact absurd (Prod.mk.inj (Option.some.inj (hn'.symm.trans hn))).1 hne
    · exact absurd (Option.some.inj (hx.symm.trans hm)) hne

/-- `command_mutex_` is taken. -/
theorem lockCommand_keeps {ch : Choice} {r : Unit} (hinv : Inv m s)
    (h : m.perform t .lockCommand ch s = some (r, s')) : Keeps m t s s' := by
  simp only [Motor.perform] at h
  split at h
  next hc =>
    obtain ⟨-, rfl⟩ := Prod.mk.inj (Option.some.inj h)
    refine mutex_keeps hinv (fun u hu n => ?_) (fun _ _ => Iff.rfl) hinv.free
    simp [hc, hu.symm]
  next v k hc =>
    split_ifs at h with hv
    obtain ⟨-, rfl⟩ := Prod.mk.inj (Option.some.inj h)
    refine mutex_keeps hinv (fun u hu n => ?_) (fun _ _ => Iff.rfl) hinv.free
    simp [hc, hv, hu.symm]

/-- `command_mutex_` is given back. -/
theorem unlockCommand_keeps {ch : Choice} {r : Unit} (hinv : Inv m s)
    (h : m.perform t .unlockCommand ch s = some (r, s')) : Keeps m t s s' := by
  simp only [Motor.perform] at h
  split at h
  next => cases h
  next v k hc =>
    by_cases hv : v = t
    · rw [if_pos hv] at h
      obtain ⟨-, rfl⟩ := Prod.mk.inj (Option.some.inj h)
      refine mutex_keeps hinv (fun u hu n => ?_) (fun _ _ => Iff.rfl) hinv.free
      rw [hc, hv]
      split_ifs <;> simp [hu.symm]
    · rw [if_neg hv] at h
      cases h

/-- Taking `motor_mutex_`. -/
theorem take_keeps (hinv : Inv m s) (hm : s.motorMutex = none) :
    Keeps m t s { s with motorMutex := some t } :=
  mutex_keeps hinv (fun _ _ _ => Iff.rfl) (fun u hu => by simp [hm, hu.symm]) nofun

/-- Releasing `motor_mutex_`. -/
theorem drop_keeps (hinv : Inv m s) (hm : s.motorMutex = some t) (hc : Coherent m s) :
    Keeps m t s { s with motorMutex := none } :=
  mutex_keeps hinv (fun _ _ _ => Iff.rfl) (fun u hu => by simp [hm, hu.symm]) fun _ => hc

/-- The wait begins. -/
theorem startWait_keeps {timeoutMs : ℕ} {ch : Choice} {r : Bool} (hinv : Inv m s)
    (hpre : m.pre s t (.startWait timeoutMs))
    (h : m.perform t (.startWait timeoutMs) ch s = some (r, s')) : Keeps m t s s' := by
  obtain ⟨hm, hc⟩ := hpre
  have hq : Quiet t s (s.withWaitOf t fun w => { w with started := true }) :=
    withWaitOf_quiet fun _ => ⟨rfl, rfl⟩
  have hw : ∀ i, (s.locals t).wait = some i →
      ((s.withWaitOf t fun w => { w with started := true }).waits i) =
        { s.waits i with started := true } := fun i hi => withWaitOf_waits hi
  have hinv' : Inv m (s.withWaitOf t fun w => { w with started := true }) := by
    refine hq.inv hinv (fun i hi => ?_) fun i ret hi hret => ?_
    · rw [hw i hi]
      exact ⟨hi, (hinv.owner t i hi).2⟩
    · rw [hw i hi] at hret ⊢
      exact (hinv.honest i ret hret).grows
        ⟨rfl, rfl, rfl, rfl, rfl, id, [], by simp, fun _ => by simp⟩
  simp only [Motor.perform] at h
  split_ifs at h
  · obtain ⟨-, rfl⟩ := Prod.mk.inj (Option.some.inj h)
    exact ⟨hinv', fun _ hu => hq.rely hinv hu⟩
  · obtain ⟨-, rfl⟩ := Prod.mk.inj (Option.some.inj h)
    obtain ⟨hfree, hrely⟩ := drop_keeps hinv' hm (hc.untouched hq.untouched)
    exact ⟨hfree, fun u hu => rely_trans (hq.rely hinv hu) (hrely u hu)⟩

/-- The wait ends. -/
theorem wake_keeps {ch : Choice} {r : Bool} (hinv : Inv m s)
    (h : m.perform t .wake ch s = some (r, s')) : Keeps m t s s' := by
  simp only [Motor.perform] at h
  split_ifs at h with hm
  · obtain ⟨-, rfl⟩ := Prod.mk.inj (Option.some.inj h)
    exact take_keeps hinv hm
  · split at h
    next => cases h
    next i hi =>
      split_ifs at h
      obtain ⟨-, rfl⟩ := Prod.mk.inj (Option.some.inj h)
      exact take_keeps hinv hm

/-- A frame is parsed under `motor_mutex_`, which keeps the others out until the flag is set. -/
theorem parse_keeps {reply : Reply} {ch : Choice} {r : Bool} (hinv : Inv m s)
    (hpre : m.pre s t (.parse reply)) (h : m.perform t (.parse reply) ch s = some (r, s')) :
    Keeps m t s s' := by
  obtain ⟨hm, hreply⟩ := hpre
  simp only [Motor.perform] at h
  split at h
  next status hstatus =>
    obtain ⟨-, rfl⟩ := Prod.mk.inj (Option.some.inj h)
    obtain ⟨hinv', hrely⟩ := vars_keeps (fun v =>
      { v with status := { status with isConnected := true } }) hinv hm
    obtain ⟨hinv'', hrely'⟩ := record_keeps hinv' hm hreply
    exact ⟨hinv'', fun u hu => rely_trans (hrely u hu) (hrely' u hu)⟩
  next =>
    obtain ⟨-, rfl⟩ := Prod.mk.inj (Option.some.inj h)
    exact (Quiet.refl t s).keeps hinv rfl rfl

/-- A step on the counter and on the record of what it counts. -/
theorem counter_keeps {v : BitVec 32} {reserved unanswered : List ℕ} {clearing : Bool}
    (hinv : Inv m s) (hr : ∀ u, u ≠ t → reserved.count u = s.reserved.count u)
    (hc : s.motorMutex ≠ some t → clearing = s.clearing) :
    Keeps m t s { s.withVars fun vars => { vars with unacknowledgedCommands := v } with
      reserved := reserved, unanswered := unanswered, clearing := clearing } :=
  Quiet.keeps ⟨fun _ _ => rfl, rfl, rfl, hr, rfl, rfl, rfl,
    ⟨rfl, rfl, rfl, rfl, fun _ => ⟨rfl, rfl⟩⟩, fun _ _ => rfl, hc⟩ hinv rfl rfl

/-- **Every action** that meets its precondition keeps the invariant and what the other threads
rely on. -/
theorem perform_keeps {a : Action} {ch : Choice} {r : a.Res} (hinv : Inv m s)
    (hpre : m.pre s t a) (h : m.perform t a ch s = some (r, s')) : Keeps m t s s' := by
  cases a with
  | enter fn => exact enter_keeps hinv h
  | leave fn ret => exact leave_keeps hinv hpre h
  | lockCommand => exact lockCommand_keeps hinv h
  | unlockCommand => exact unlockCommand_keeps hinv h
  | lockMotor =>
      simp only [Motor.perform] at h
      split_ifs at h with hm
      obtain ⟨-, rfl⟩ := Prod.mk.inj (Option.some.inj h)
      exact take_keeps hinv hm
  | unlockMotor =>
      simp only [Motor.perform] at h
      split_ifs at h with hm
      obtain ⟨-, rfl⟩ := Prod.mk.inj (Option.some.inj h)
      exact drop_keeps hinv hm hpre
  | isConnected =>
      obtain rfl := perform_isConnected h
      exact (Quiet.refl t _).keeps hinv rfl rfl
  | transmit fn frame => exact transmit_keeps hinv h
  | prepare fn expected => exact prepare_keeps hinv hpre h
  | startWait timeoutMs => exact startWait_keeps hinv hpre h
  | wake => exact wake_keeps hinv h
  | readParam =>
      obtain ⟨-, rfl⟩ := Prod.mk.inj (Option.some.inj h)
      exact (Quiet.refl t s).keeps hinv rfl rfl
  | parse reply => exact parse_keeps hinv hpre h
  | fetchAdd =>
      obtain ⟨-, rfl⟩ := Prod.mk.inj (Option.some.inj h)
      refine counter_keeps hinv (fun u hu => ?_) fun _ => rfl
      split_ifs
      · rfl
      · exact List.count_cons_of_ne hu.symm
  | fetchSub reply =>
      obtain ⟨-, rfl⟩ := Prod.mk.inj (Option.some.inj h)
      exact counter_keeps hinv (fun _ _ => rfl) fun hm => absurd hpre hm
  | store value =>
      obtain ⟨-, rfl⟩ := Prod.mk.inj (Option.some.inj h)
      exact counter_keeps hinv (fun _ _ => rfl) fun hm => by simp [hm]
  | expectedType =>
      obtain ⟨-, rfl⟩ := Prod.mk.inj (Option.some.inj h)
      exact (Quiet.refl t s).keeps hinv rfl rfl
  | notify =>
      obtain ⟨-, rfl⟩ := Prod.mk.inj (Option.some.inj h)
      exact vars_keeps _ hinv hpre
  | countUnknown =>
      obtain ⟨-, rfl⟩ := Prod.mk.inj (Option.some.inj h)
      exact vars_keeps _ hinv hpre
  | undefined => cases h

/-! ### The environment keeps the invariant -/

/-- A change of the bus alone. -/
theorem bus_keeps {arrived : ℕ} {received : List ℕ} {replies : List Reply} (hinv : Inv m s)
    (harrived : ∀ n ∈ received, n < arrived) (hreceived : ∀ n ∈ s.received, n ∈ received)
    (hreplies : ∀ reply ∈ replies, ∀ n, reply.answers = some n → n ∈ received) :
    Inv m { s with arrived := arrived, received := received, replies := replies } ∧
      ∀ u, Rely u s { s with arrived := arrived, received := received, replies := replies } := by
  have hu : Untouched s { s with arrived := arrived, received := received, replies := replies } :=
    ⟨rfl, rfl, rfl, rfl, fun _ => ⟨rfl, rfl⟩⟩
  refine ⟨⟨harrived, hreplies, fun i p hp => (hinv.parsed i p hp).congr hreceived, hinv.owner,
    hinv.honest, fun hm => (hinv.free hm).untouched hu⟩, fun u => ?_⟩
  exact ⟨rfl, fun _ => Iff.rfl, Iff.rfl, rfl, hreceived, fun _ _ => .refl _, fun _ => rfl,
    fun _ => hu, fun _ => rfl⟩

/-- The time of a request passes. -/
theorem expire_keeps (i : ℕ) (hinv : Inv m s) :
    Inv m (s.withWait i fun w => { w with expired := true }) ∧
      ∀ u, Rely u s (s.withWait i fun w => { w with expired := true }) := by
  have hg : ∀ j, (s.waits j).Grows ((s.withWait i fun w => { w with expired := true }).waits j) :=
    fun j => by
      by_cases hj : j = i
      · subst hj
        simp only [State.withWait, Function.update_self]
        exact ⟨rfl, rfl, rfl, rfl, rfl, fun _ => rfl, [], by simp, fun _ => by simp⟩
      · simp only [State.withWait, Function.update_of_ne hj]
        exact .refl _
  have hp : ∀ j, ((s.withWait i fun w => { w with expired := true }).waits j).parsed =
      (s.waits j).parsed := fun j => by
    by_cases hj : j = i
    · subst hj
      simp [State.withWait]
    · simp [State.withWait, hj]
  have hu : Untouched s (s.withWait i fun w => { w with expired := true }) :=
    ⟨rfl, rfl, rfl, rfl, fun j => ⟨hp j, (hg j).expected⟩⟩
  refine ⟨⟨hinv.arrived, hinv.replies, fun j p hp' => hinv.parsed j p (hp j ▸ hp'),
    fun u j hj => ?_, fun j ret hret => ?_, fun hm => (hinv.free hm).untouched hu⟩, fun u => ?_⟩
  · rw [(hg j).thread, (hg j).result]
    exact hinv.owner u j hj
  · rw [(hg j).result] at hret
    exact (hinv.honest j ret hret).grows (hg j)
  · exact ⟨rfl, fun _ => Iff.rfl, Iff.rfl, rfl, fun _ => id, fun j _ => hg j, fun _ => rfl,
      fun _ => hu, fun _ => rfl⟩

/-- **The environment** keeps the invariant and what every thread relies on. -/
theorem env_keeps {e : BusEvent} (hinv : Inv m s) (h : s.env e = some s') :
    Inv m s' ∧ ∀ u, Rely u s s' := by
  cases e with
  | deliver answer =>
      simp only [State.env] at h
      split_ifs at h
      obtain rfl := Option.some.inj h
      -- A reply on its way answers a frame that has arrived.
      refine bus_keeps hinv (fun n hn => ?_) (fun n hn => List.mem_cons_of_mem _ hn)
        fun reply hreply n hn => ?_
      · rcases List.mem_cons.mp hn with rfl | hn
        · exact Nat.lt_succ_self _
        · exact (hinv.arrived n hn).trans (Nat.lt_succ_self _)
      · rcases List.mem_append.mp hreply with hreply | hreply
        · exact List.mem_cons_of_mem _ (hinv.replies reply hreply n hn)
        · obtain ⟨frame, -, rfl⟩ := List.mem_map.mp hreply
          exact Option.some.inj hn ▸ List.mem_cons_self
  | lose =>
      simp only [State.env] at h
      split_ifs at h
      obtain rfl := Option.some.inj h
      exact bus_keeps hinv (fun n hn => (hinv.arrived n hn).trans (Nat.lt_succ_self _))
        (fun _ => id) hinv.replies
  | loseReply =>
      obtain rfl := Option.some.inj h
      exact bus_keeps hinv hinv.arrived (fun _ => id) fun reply hreply =>
        hinv.replies reply (List.mem_of_mem_tail hreply)
  | unsolicited frame =>
      obtain rfl := Option.some.inj h
      refine bus_keeps hinv hinv.arrived (fun _ => id) fun reply hreply n hn => ?_
      rcases List.mem_append.mp hreply with hreply | hreply
      · exact hinv.replies reply hreply n hn
      · obtain rfl := List.mem_singleton.mp hreply
        cases hn
  | expire i =>
      simp only [State.env] at h
      split_ifs at h
      obtain rfl := Option.some.inj h
      exact expire_keeps i hinv

/-- Starting an operation changes the frames on their way at most. -/
theorem call_keeps {op : Op} (hinv : Inv m s) (h : s.call op = some s') :
    Inv m s' ∧ ∀ u, Rely u s s' := by
  cases op with
  | processFrame reply =>
      simp only [State.call] at h
      split_ifs at h
      obtain rfl := Option.some.inj h
      exact bus_keeps hinv hinv.arrived (fun _ => id) fun reply hreply =>
        hinv.replies reply (List.mem_of_mem_tail hreply)
  | _ =>
      obtain rfl := Option.some.inj h
      exact ⟨hinv, fun u => rely_refl u s⟩

end

end

end Robstride
