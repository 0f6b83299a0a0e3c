import Robstride.Motor.Disconnect
import Robstride.Motor.Frames
import Robstride.Motor.Phases
import Robstride.Sdk.Status
import Robstride.Support.Sections

/-!
# Motor — Snapshots

`motor_mutex_` guards `status_`, `expected_response_type_` and `response_received_`.
`process_frame` changes them in up to three actions, with the atomic counter in between, and
`prepare_wait` in one.  In every run they are what whole frames and whole `prepare_wait`s make of
them one after another, in the order in which these took the mutex (`guarded_linearizes`); and what
`get_status` returns is the status so far: it shows no frame half processed.
-/

namespace Robstride

open Support Support.Prog Support.Pool Support.Pool.Phases

/-! ### The system -/

/-- What an action of thread `t` answers and leaves. -/
def Motor.performStatus (m : Motor) (t : ℕ) :
    (a : StatusAction) → Choice → State → Option (a.Res × State)
  | .own a, ch, s => m.perform t a ch s
  | .copyStatus, _, s => some (s.vars.status, s)

/-- A call begins; `get_status` has nothing to record. -/
def State.callStatus (op : StatusOp) (s : State) : Option State :=
  match op with
  | .call op => s.call op
  | .getStatus => some s

/-- The threads of a session, and those that ask for the status. -/
@[reducible] def Motor.observed (m : Motor) : System where
  Act := StatusAction
  Res := StatusAction.Res
  State := State
  Choice := Choice
  Op := StatusOp
  Env := SessionEvent
  perform := m.performStatus
  body := m.statusBody
  call _ := State.callStatus
  env := State.session

/-- Every thread idle, the object as constructed. -/
abbrev Motor.observedInitial (m : Motor) : Config m.observed := start m.initialState

/-! ### What the mutex guards -/

/-- The fields that `motor_mutex_` guards. -/
structure Guarded where
  status : MotorStatus
  expectedResponseType : FrameType
  responseReceived : Bool
  deriving DecidableEq

/-- These fields alone. -/
def MotorVars.guarded (v : MotorVars) : Guarded where
  status := v.status
  expectedResponseType := v.expectedResponseType
  responseReceived := v.responseReceived

/-- What changes it, at once. -/
inductive Update where
  | frame (frame : CanFrame)
  | prepare (expectedType : FrameType)
  | disconnect

/-- `process_frame` with no other thread running, on what the mutex guards. -/
def Motor.processGuarded (m : Motor) (frame : CanFrame) (g : Guarded) : Guarded :=
  (m.processFrameAlone frame ⟨g.status, g.expectedResponseType, g.responseReceived, 0⟩).guarded

/-- What it makes of the guarded fields. -/
def Motor.update (m : Motor) (g : Guarded) : Update → Guarded
  | .frame frame => m.processGuarded frame g
  | .prepare expectedType =>
      { g with expectedResponseType := expectedType, responseReceived := false }
  | .disconnect => { g with status := { g.status with isConnected := false } }

/-- The frame of a `parse`, the type of a `prepare_wait`, and a `disconnect`. -/
def Motor.update? (m : Motor) : Label m.observed → Option Update
  | .act _ (.own (.parse reply)) _ => some (.frame reply.frame)
  | .act _ (.own (.prepare _ expectedType)) _ => some (.prepare expectedType)
  | .env .disconnect => some .disconnect
  | _ => none

/-! ### What is left of a section -/

/-- What a thread still has to do to what the mutex guards. -/
inductive Tail where
  | done
  /-- A frame of the type was parsed. -/
  | answering (frameType : FrameType)
  | notifying
  /-- A frame was refused. -/
  | counting

/-- What the section under way will have made of the guarded fields. -/
def Tail.settle (tail : Tail) (g : Guarded) : Guarded :=
  match tail with
  | done => g
  | answering frameType =>
      { g with responseReceived := g.responseReceived || frameType == g.expectedResponseType }
  | notifying => { g with responseReceived := true }
  | counting =>
      { g with status := { g.status with unknownFrameCount := g.status.unknownFrameCount + 1 } }

/-- What a thread may perform where this is left to do. -/
def Tail.Allows (m : Motor) : Tail → Action → Prop
  | done, .parse reply => m.protocol.isFeedbackFrame reply.frame m.motorId = true
  | done, .notify | done, .countUnknown => False
  | done, _ => True
  | answering _, .fetchSub _ | answering _, .store _ | answering _, .expectedType => True
  | notifying, .notify => True
  | counting, .countUnknown => True
  | _, _ => False

/-- What is left to do after the action. -/
def Tail.next (m : Motor) : Tail → (a : Action) → a.Res → Tail
  | _, .parse reply, accepted =>
      if accepted = true then answering (m.protocol.getResponseType reply.frame) else counting
  | answering frameType, .expectedType, expected =>
      if frameType = expected then notifying else done
  | notifying, .notify, _ => done
  | counting, .countUnknown, _ => done
  | tail, _, _ => tail

/-- Where a thread stands with the mutex, and what it still has to do. -/
structure StatusPhase where
  phase : Phase
  tail : Tail

/-- The phases with what is left to do. -/
def Motor.statusPhases (m : Motor) : Phases m.observed where
  Phase := StatusPhase
  idle := ⟨.free, .done⟩
  ok φ a :=
    match a with
    | .own a => Phase.Allows m φ.phase a ∧ φ.tail.Allows m a
    | .copyStatus => φ.phase = .held ∧ φ.tail = .done
  next φ a r :=
    match a, r with
    | .own a, r => ⟨Phase.next m φ.phase a r, φ.tail.next m a r⟩
    | .copyStatus, _ => φ

/-! ### Programs -/

section Programs

variable {m : Motor} {α : Type}

theorem Tail.allows_done {a : Action} (ha : ¬ a.OfFrame) : Tail.Allows m .done a := by
  cases a with
  | parse _ | fetchSub _ | expectedType | notify | countUnknown => exact absurd trivial ha
  | _ => trivial

theorem Tail.next_done {a : Action} (ha : ¬ a.OfFrame) (r : a.Res) :
    Tail.next m .done a r = .done := by
  cases a with
  | parse _ | fetchSub _ | expectedType | notify | countUnknown => exact absurd trivial ha
  | _ => rfl

theorem withStatus_bind {β : Type} (p : Cmd α) (f : α → Cmd β) :
    Cmd.withStatus (p >>= f) = p.withStatus >>= fun x => (f x).withStatus := by
  induction p with
  | ret x => rfl
  | act a k ih => exact congrArg (Prog.act (StatusAction.own a)) (funext ih)

/-- An action of the motor, and what follows its answer. -/
theorem own_obeys {a : Action} {f : a.Res → Cmd α} {Q : α → StatusPhase → Prop}
    {φ : StatusPhase} (hphase : Phase.Allows m φ.phase a) (htail : φ.tail.Allows m a)
    (hf : ∀ r, m.statusPhases.Obeys Q (f r).withStatus
      ⟨Phase.next m φ.phase a r, φ.tail.next m a r⟩) :
    m.statusPhases.Obeys Q (Cmd.withStatus (.perform a >>= f)) φ := by
  rw [withStatus_bind]
  exact ⟨⟨hphase, htail⟩, hf⟩

/-- Command code leaves nothing to do. -/
theorem withStatus_obeys {p : Cmd α} {Q : α → Phase → Prop} {φ : Phase}
    (h : m.phases.Obeys Q p φ) (hp : p.All fun a => ¬ a.OfFrame) :
    m.statusPhases.Obeys (fun x φ' => Q x φ'.phase ∧ φ'.tail = .done) p.withStatus
      ⟨φ, .done⟩ := by
  induction p generalizing φ with
  | ret x => exact ⟨h, rfl⟩
  | act a k ih =>
      refine ⟨⟨h.1, Tail.allows_done hp.1⟩, fun r => ?_⟩
      have hk := ih r (h.2 r) (hp.2 r)
      change m.statusPhases.Obeys _ _ ⟨Phase.next m φ a r, Tail.next m .done a r⟩
      rw [Tail.next_done hp.1 r]
      exact hk

/-- The program ends without the mutex and with nothing left to do. -/
def Settles (m : Motor) (p : Cmd Unit) (φ : StatusPhase) : Prop :=
  m.statusPhases.Obeys (fun _ φ' => φ' = ⟨.free, .done⟩) p.withStatus φ

theorem unlock_settles : Settles m unlockMotor ⟨.held, .done⟩ :=
  ⟨⟨trivial, trivial⟩, fun _ => rfl⟩

/-- What `process_frame` ends with, under the mutex. -/
theorem answer_settles (frameType : FrameType) : Settles m (do
    let expected ← expectedType
    if frameType = expected then notify
    unlockMotor : Cmd Unit) ⟨.held, .answering frameType⟩ := by
  refine own_obeys trivial trivial fun expected => ?_
  change m.statusPhases.Obeys _ _ ⟨.held, if frameType = expected then .notifying else .done⟩
  split_ifs
  · exact own_obeys trivial trivial fun _ => unlock_settles
  · exact unlock_settles

/-- `process_frame` does to what the mutex guards all that a frame does, and then unlocks it. -/
theorem processFrame_settles (reply : Reply) : Settles m (m.processFrame reply) ⟨.free, .done⟩ := by
  unfold Motor.processFrame
  split_ifs with haccepted
  · refine own_obeys trivial trivial fun _ => own_obeys trivial haccepted fun parsed => ?_
    cases parsed with
    | false => exact own_obeys trivial trivial fun _ => unlock_settles
    | true =>
        refine own_obeys trivial trivial fun prev => ?_
        change m.statusPhases.Obeys _ _ ⟨if prev.sle 0 = true then .clearing else .held,
          .answering (m.protocol.getResponseType reply.frame)⟩
        split_ifs
        · exact own_obeys rfl trivial fun _ => answer_settles _
        · exact answer_settles _
  · rfl

/-- **Every operation** ends with nothing left to do. -/
theorem statusPhases_kept (m : Motor) : m.statusPhases.Kept := by
  intro op
  cases op with
  | getStatus =>
      exact ⟨⟨trivial, trivial⟩, fun _ => ⟨⟨rfl, rfl⟩, fun _ => ⟨⟨trivial, trivial⟩, fun _ => rfl⟩⟩⟩
  | call op =>
      cases hop : op.fn with
      | some fn =>
          have hbody := (body_within m op hop).mono fun _ ha => ha.1
          refine (withStatus_obeys (phases_kept m op) hbody).mono ?_
          rintro - ⟨phase, tail⟩ ⟨rfl, rfl⟩
          rfl
      | none =>
          cases op with
          | processFrame reply => exact processFrame_settles reply
          | _ => cases hop

end Programs

/-! ### Sections -/

/-- The guarded fields, changed a critical section at a time. -/
def Motor.guard (m : Motor) : Sections m.statusPhases Guarded Update where
  view s := s.vars.guarded
  holds φ := φ.phase.Holds
  rest φ := φ.tail.settle
  event := m.update?
  apply := m.update

/-- The phases say who holds the mutex, and only its owner has something left to do. -/
structure Guards (s : State) (φ : ℕ → StatusPhase) : Prop where
  linked : Linked s fun t => (φ t).phase
  owner : ∀ t, (φ t).tail = .done ∨ (φ t).phase.Holds

section Sections

variable {m : Motor} {t : ℕ} {s s' : State} {φ : ℕ → StatusPhase} {a : Action} {ch : Choice}
  {r : a.Res}

/-- The action is none of those that change what the mutex guards. -/
def Action.Reads : Action → Prop
  | .prepare _ _ | .parse _ | .notify | .countUnknown => False
  | _ => True

theorem perform_guarded (ha : a.Reads) (h : m.perform t a ch s = some (r, s')) :
    s'.vars.guarded = s.vars.guarded := by
  cases a with
  | prepare _ _ | parse _ | notify | countUnknown => exact ha.elim
  | leave fn value =>
      obtain ⟨-, rfl⟩ := Prod.mk.inj (Option.some.inj h)
      simp only [State.close]
      split_ifs <;> rfl
  | isConnected =>
      obtain rfl := perform_isConnected h
      rfl
  | transmit fn frame => rcases perform_transmit h with ⟨-, rfl⟩ | ⟨-, rfl⟩ <;> rfl
  | _ =>
      simp only [Motor.perform] at h
      repeat' split at h
      all_goals cases h
      all_goals rfl

theorem update?_reads (ha : a.Reads) : m.update? (.act t (.own a) r) = none := by
  cases a with
  | prepare _ _ | parse _ | notify | countUnknown => exact ha.elim
  | _ => rfl

theorem processGuarded_parsed {frame : CanFrame} {g : Guarded} {status : MotorStatus}
    (haccepted : m.protocol.isFeedbackFrame frame m.motorId = true)
    (hparse : m.protocol.parseFeedback frame g.status m.profile = some status) :
    m.processGuarded frame g =
      { status := { status with isConnected := true }
        expectedResponseType := g.expectedResponseType
        responseReceived := g.responseReceived ||
          m.protocol.getResponseType frame == g.expectedResponseType } := by
  have halone := processFrameAlone_parsed
    (v := ⟨g.status, g.expectedResponseType, g.responseReceived, 0⟩) haccepted hparse
  exact congrArg MotorVars.guarded halone

theorem processGuarded_rejected {frame : CanFrame} {g : Guarded}
    (haccepted : m.protocol.isFeedbackFrame frame m.motorId = true)
    (hparse : m.protocol.parseFeedback frame g.status m.profile = none) :
    m.processGuarded frame g = { g with status :=
      { g.status with unknownFrameCount := g.status.unknownFrameCount + 1 } } := by
  have halone := processFrameAlone_rejected
    (v := ⟨g.status, g.expectedResponseType, g.responseReceived, 0⟩) haccepted hparse
  exact congrArg MotorVars.guarded halone

/-- A frame parsed, and what is left of its section, is the frame processed at once. -/
theorem parse_settles {reply : Reply} {accepted : Bool}
    (haccepted : m.protocol.isFeedbackFrame reply.frame m.motorId = true)
    (h : m.perform t (.parse reply) ch s = some (accepted, s')) :
    (Tail.next m .done (.parse reply) accepted).settle s'.vars.guarded =
      m.processGuarded reply.frame s.vars.guarded := by
  simp only [Motor.perform] at h
  split at h
  next status hstatus =>
    obtain ⟨rfl, rfl⟩ := Prod.mk.inj (Option.some.inj h)
    exact (processGuarded_parsed (g := s.vars.guarded) haccepted hstatus).symm
  next hstatus =>
    obtain ⟨rfl, rfl⟩ := Prod.mk.inj (Option.some.inj h)
    exact (processGuarded_rejected (g := s.vars.guarded) haccepted hstatus).symm

/-- An action that only reads leaves as much to do. -/
theorem reads_settles {tail : Tail} (ha : a.Reads) (hnext : tail.next m a r = tail)
    (h : m.perform t a ch s = some (r, s')) :
    (tail.next m a r).settle s'.vars.guarded =
      m.guard.effect (.act t (.own a) r) (tail.settle s.vars.guarded) := by
  have hevent : m.guard.event (.act t (.own a) r) = none := update?_reads ha
  rw [hnext, perform_guarded ha h, Sections.effect, hevent]

/-- A step brings what is left to do in line with its update. -/
theorem own_settles {tail : Tail} (htail : tail.Allows m a)
    (h : m.perform t a ch s = some (r, s')) :
    (tail.next m a r).settle s'.vars.guarded =
      m.guard.effect (.act t (.own a) r) (tail.settle s.vars.guarded) := by
  cases tail with
  | done =>
      cases a with
      | parse reply => exact parse_settles htail h
      | prepare fn expected =>
          obtain ⟨-, rfl⟩ := Prod.mk.inj (Option.some.inj h)
          rfl
      | notify => exact htail.elim
      | countUnknown => exact htail.elim
      | _ =>
          refine reads_settles ?_ ?_ h
          · trivial
          · rfl
  | answering frameType =>
      cases a with
      | fetchSub reply => exact reads_settles (a := .fetchSub reply) trivial rfl h
      | store value => exact reads_settles (a := .store value) trivial rfl h
      | expectedType =>
          obtain ⟨rfl, rfl⟩ := Prod.mk.inj (Option.some.inj h)
          change Tail.settle (if frameType = s.vars.expectedResponseType then .notifying else .done)
            s.vars.guarded = (Tail.answering frameType).settle s.vars.guarded
          split_ifs with hexpected
          · simp [Tail.settle, MotorVars.guarded, hexpected]
          · simp [Tail.settle, MotorVars.guarded, hexpected]
      | _ => exact htail.elim
  | notifying =>
      cases a with
      | notify =>
          obtain ⟨-, rfl⟩ := Prod.mk.inj (Option.some.inj h)
          rfl
      | _ => exact htail.elim
  | counting =>
      cases a with
      | countUnknown =>
          obtain ⟨-, rfl⟩ := Prod.mk.inj (Option.some.inj h)
          rfl
      | _ => exact htail.elim

/-- Without the mutex an action only reads. -/
theorem reads_of_not_holds {ψ : Phase} (hψ : ¬ ψ.Holds) (hok : Phase.Allows m ψ a) : a.Reads := by
  cases ψ with
  | free => cases a <;> trivial
  | exceeded => cases a <;> trivial
  | held => exact absurd trivial hψ
  | parsed => exact absurd trivial hψ
  | clearing => exact absurd trivial hψ

/-- A thread keeps the mutex while it has something left to do. -/
theorem owner_next {ψ : Phase} {tail : Tail} (howner : tail = .done ∨ ψ.Holds)
    (hok : Phase.Allows m ψ a) (htail : tail.Allows m a) :
    tail.next m a r = .done ∨ (Phase.next m ψ a r).Holds := by
  cases tail with
  | done =>
      by_cases hframe : a.OfFrame
      · cases a with
        | parse reply =>
            right
            change (if r = true then Phase.parsed else Phase.held).Holds
            split_ifs <;> trivial
        | notify => exact htail.elim
        | countUnknown => exact htail.elim
        | fetchSub reply => exact Or.inl rfl
        | expectedType => exact Or.inl rfl
        | _ => exact hframe.elim
      · exact Or.inl (Tail.next_done hframe r)
  | answering frameType =>
      have hholds : ψ.Holds := howner.resolve_left nofun
      right
      cases a with
      | fetchSub reply =>
          change (if BitVec.sle r 0 = true then Phase.clearing else Phase.held).Holds
          split_ifs <;> trivial
      | store value =>
          cases ψ with
          | exceeded => exact hholds.elim
          | clearing => trivial
          | free => exact hok.elim
          | held => exact hok.elim
          | parsed => exact hok.elim
      | expectedType => exact hholds
      | _ => exact htail.elim
  | notifying =>
      cases a with
      | notify => exact Or.inl rfl
      | _ => exact htail.elim
  | counting =>
      cases a with
      | countUnknown => exact Or.inl rfl
      | _ => exact htail.elim

theorem phase_update (φ : ℕ → StatusPhase) (t : ℕ) (ψ : StatusPhase) :
    (fun u => (Function.update φ t ψ u).phase) =
      Function.update (fun u => (φ u).phase) t ψ.phase := by
  funext u
  by_cases hu : u = t
  · subst hu
    rw [Function.update_self, Function.update_self]
  · rw [Function.update_of_ne hu, Function.update_of_ne hu]

theorem Guards.own (h : Guards s φ) (hok : Phase.Allows m (φ t).phase a)
    (htail : (φ t).tail.Allows m a) (hs : m.perform t a ch s = some (r, s')) :
    Guards s' (Function.update φ t
      ⟨Phase.next m (φ t).phase a r, (φ t).tail.next m a r⟩) := by
  constructor
  · rw [phase_update]
    exact h.linked.step hok hs
  · intro u
    by_cases hu : u = t
    · subst hu
      rw [Function.update_self]
      exact owner_next (h.owner u) hok htail
    · rw [Function.update_of_ne hu]
      exact h.owner u

theorem Guards.act {b : StatusAction} {ans : b.Res} (h : Guards s φ)
    (hok : m.statusPhases.ok (φ t) b) (hs : m.performStatus t b ch s = some (ans, s')) :
    Guards s' (Function.update φ t (m.statusPhases.next (φ t) b ans)) := by
  cases b with
  | copyStatus =>
      obtain ⟨-, rfl⟩ := Prod.mk.inj (Option.some.inj hs)
      have hsame : Function.update φ t (φ t) = φ := Function.update_eq_self t φ
      exact hsame.symm ▸ h
  | own a => exact h.own hok.1 hok.2 hs

theorem Guards.session {e : SessionEvent} (h : Guards s φ) (hs : s.session e = some s') :
    Guards s' φ := by
  cases e with
  | bus e => exact ⟨h.linked.env hs, h.owner⟩
  | connect =>
      obtain rfl := Option.some.inj hs
      exact h
  | disconnect =>
      obtain rfl := Option.some.inj hs
      exact ⟨h.linked.same rfl rfl, h.owner⟩

/-- A `disconnect` falls into any section. -/
theorem session_settles {e : SessionEvent} (tail : Tail) (hs : s.session e = some s') :
    tail.settle s'.vars.guarded = m.guard.effect (.env e) (tail.settle s.vars.guarded) := by
  cases e with
  | bus e => exact congrArg (fun v => tail.settle (MotorVars.guarded v)) (env_vars hs)
  | connect =>
      obtain rfl := Option.some.inj hs
      rfl
  | disconnect =>
      obtain rfl := Option.some.inj hs
      cases tail <;> rfl

/-- **The sections of `motor_mutex_`.** -/
theorem guard_sound (m : Motor) : m.guard.Sound Guards where
  kept := statusPhases_kept m
  alone h ht hu := h.linked.eq_of_holds ht hu
  link_act h hok hs := h.act hok hs
  link_call {s φ t op s'} h hs := by
    cases op with
    | call op => exact ⟨h.linked.call hs, h.owner⟩
    | getStatus =>
        obtain rfl := Option.some.inj hs
        exact h
  link_env h hs := h.session hs
  rest_free {s φ t} g h hfree := by
    have hdone : (φ t).tail = .done := (h.owner t).resolve_right hfree
    change (φ t).tail.settle g = g
    rw [hdone]
    rfl
  inside {s φ t b ch ans s'} _ hok hs _ := by
    cases b with
    | copyStatus =>
        obtain ⟨-, rfl⟩ := Prod.mk.inj (Option.some.inj hs)
        rfl
    | own a => exact own_settles hok.2 hs
  outside {s φ t b ch ans s'} _ hok hs hbefore _ := by
    cases b with
    | copyStatus =>
        refine absurd ?_ hbefore
        change (φ t).phase.Holds
        rw [hok.1]
        trivial
    | own a =>
        have hreads := reads_of_not_holds hbefore hok.1
        exact ⟨perform_guarded hreads hs, update?_reads hreads⟩
  call {t op s s'} hs := by
    cases op with
    | call op => exact ⟨congrArg MotorVars.guarded (call_vars hs), rfl⟩
    | getStatus =>
        obtain rfl := Option.some.inj hs
        exact ⟨rfl, rfl⟩
  env φ hs := session_settles φ.tail hs

end Sections

/-! ### Runs -/

section Runs

variable {m : Motor} {ls : List (Label m.observed)} {c : Config m.observed}

/-- What updates make of the fields as constructed. -/
def Motor.guardedAfter (m : Motor) (updates : List Update) : Guarded :=
  updates.foldl m.update m.initialVars.guarded

/-- The updates of a log, in the order of their sections. -/
def Motor.updates (m : Motor) (ls : List (Label m.observed)) : List Update :=
  ls.filterMap m.update?

theorem observed_explained (h : Path Any m.observedInitial ls c) :
    ∃ φ, m.statusPhases.Follows c φ ∧ Guards c.state φ ∧
      m.guard.Explained m.initialVars.guarded ls c.state φ := by
  have hinitial : Guards m.initialState fun _ => ⟨.free, .done⟩ :=
    ⟨Linked.initial m, fun _ => Or.inl rfl⟩
  exact Sections.explained (guard_sound m) hinitial id h

theorem guarded_of_free (h : Path Any m.observedInitial ls c) (hfree : c.state.motorMutex = none) :
    c.state.vars.guarded = m.guardedAfter (m.updates ls) := by
  obtain ⟨φ, -, hguards, hexplained⟩ := observed_explained h
  refine hexplained.free fun t ht => ?_
  have howned := (hguards.linked.mutex t).mpr ht
  rw [hfree] at howned
  cases howned

/-- `get_status` reads between two sections. -/
theorem copyStatus_eq {before after : List (Label m.observed)} {t : ℕ} {status : MotorStatus}
    (h : Path Any m.observedInitial (before ++ .act t .copyStatus status :: after) c) :
    status = (m.guardedAfter (m.updates before)).status := by
  obtain ⟨c₁, c₂, hbefore, hstep, -, -⟩ := h.cut
  obtain ⟨φ, hfollows, hguards, hexplained⟩ := observed_explained hbefore
  cases hstep with
  | act ch ht hs =>
      obtain ⟨rfl, -⟩ := Prod.mk.inj (Option.some.inj hs)
      have hok := hfollows t
      rw [ht] at hok
      obtain ⟨hheld, hdone⟩ : (φ t).phase = .held ∧ (φ t).tail = .done := hok.1
      have hholds : m.guard.holds (φ t) := by
        change (φ t).phase.Holds
        rw [hheld]
        trivial
      have hrest : m.guard.rest (φ t) (m.guard.view c₁.state) = m.guard.view c₁.state := by
        change (φ t).tail.settle _ = _
        rw [hdone]
        rfl
      exact congrArg Guarded.status
        (Sections.view_eq (guard_sound m) hguards hexplained hholds hrest)

/-- A call of `process_frame` that has returned parsed its frame, if it accepts it. -/
theorem processFrame_trace {reply : Reply} {tr : Trace StatusAction StatusAction.Res} {u : Unit}
    (haccepted : m.protocol.isFeedbackFrame reply.frame m.motorId = true)
    (h : After (m.processFrame reply).withStatus tr (.ret u)) :
    ∃ parsed, ⟨.own (.parse reply), parsed⟩ ∈ tr := by
  unfold Motor.processFrame at h
  rw [if_pos haccepted] at h
  cases h with
  | cons h =>
      cases h with
      | @cons _ _ parsed _ _ h => exact ⟨parsed, List.mem_cons_of_mem _ List.mem_cons_self⟩

/-- **The guarded fields** are, whenever the mutex is free, what whole frames, whole `prepare_wait`s
and disconnects make of them in the order of their sections, and `get_status` returns the status
that those before it made; a frame whose `process_frame` has returned is one of them. -/
theorem guarded_linearizes {m : Motor} {ls : List (Label m.observed)} {c : Config m.observed}
    (h : Path Any m.observedInitial ls c) :
    (c.state.motorMutex = none → c.state.vars.guarded = m.guardedAfter (m.updates ls)) ∧
    (∀ before t status after, ls = before ++ .act t .copyStatus status :: after →
      status = (m.guardedAfter (m.updates before)).status) ∧
    ∀ before t reply since, ls = before ++ .call t (.call (.processFrame reply)) :: since →
      m.protocol.isFeedbackFrame reply.frame m.motorId = true → (∀ op, .call t op ∉ since) →
        (∃ u, c.threads t = .ret u) → ∃ parsed, .act t (.own (.parse reply)) parsed ∈ since := by
  refine ⟨guarded_of_free h, ?_, ?_⟩
  · rintro before t status after rfl
    exact copyStatus_eq h
  · rintro before t reply since rfl haccepted hlast ⟨u, hret⟩
    obtain ⟨tr, hperforms, hafter⟩ := h.called hlast
    rw [hret] at hafter
    obtain ⟨parsed, hmem⟩ := processFrame_trace haccepted hafter
    exact ⟨parsed, hperforms.mem_log hmem⟩

end Runs

/-- A thread asks for the status while another is in the middle of a frame. -/
def readingAside : List (Event (Motor.sample .priv).observed) :=
  [.env (.bus (.unsolicited (sampleReply .feedback))),
    .call 0 (.call (.processFrame ⟨sampleReply .feedback, none⟩)), .step 0 .go, .step 0 .go,
    .call 1 .getStatus, .step 0 .go, .step 0 .go, .step 0 .go, .step 0 .go, .step 1 .go,
    .step 1 .go, .step 1 .go]

theorem guarded_linearizes_aside : ∃ run,
    (Motor.sample .priv).observedInitial.log Any readingAside = some run ∧
      run.2.state.vars.guarded =
        (Motor.sample .priv).guardedAfter ((Motor.sample .priv).updates run.1) := by
  have hruns : ((Motor.sample .priv).observedInitial.log Any readingAside).map
      (fun run => run.2.state.motorMutex) = some none := rfl
  obtain ⟨run, hlog, hfree⟩ := Option.map_eq_some_iff.mp hruns
  exact ⟨run, hlog, (guarded_linearizes (log_path hlog)).1 hfree⟩

end Robstride
