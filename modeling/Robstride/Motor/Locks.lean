import Robstride.Motor.Fleet
import Robstride.Support.Locks

/-!
# Motor — Locks

The locks of a fleet: each motor's `command_mutex_`, which is recursive, and `motor_mutex_`, and the
transport's `tx_mutex_`.  A thread takes `motor_mutex_` or `tx_mutex_` while it holds at most
`command_mutex_`, and takes `command_mutex_` while it holds nothing else.

So no threads wait for locks in a circle, and a thread that holds `motor_mutex_` waits neither for
a lock nor for a reply (`fleet_locks`).
-/

namespace Robstride

open Support Support.Pool Support.Prog

/-! ### The locks of one motor -/

/-- What a thread holds: `command_mutex_` so often, and `motor_mutex_`. -/
structure Held where
  command : ℕ
  motor : Bool

namespace Held

/-- Nothing. -/
def free : Held where
  command := 0
  motor := false

/-- What is held after an action. -/
def after : (a : Action) → a.Res → Held → Held
  | .lockCommand, _, h => { h with command := h.command + 1 }
  | .unlockCommand, _, h => { h with command := h.command - 1 }
  | .lockMotor, _, h => { h with motor := true }
  | .unlockMotor, _, h => { h with motor := false }
  | .startWait _, ready, h => { h with motor := ready }
  | .wake, _, h => { h with motor := true }
  | _, _, h => h

/-- `wait_for` begins under `motor_mutex_`; no lock is taken under it, and nothing transmitted. -/
def Allows (h : Held) : Action → Prop
  | .startWait _ => h.motor = true
  | .lockCommand | .lockMotor | .wake | .transmit _ _ => h.motor = false
  | _ => True

end Held

namespace State

/-- How often the thread holds `command_mutex_`. -/
def commandCount (s : State) (t : ℕ) : ℕ :=
  match s.commandMutex with
  | none => 0
  | some (u, n) => if u = t then n else 0

/-- What the thread holds in a state. -/
def held (s : State) (t : ℕ) : Held where
  command := s.commandCount t
  motor := s.motorMutex == some t

end State

/-- The action leaves both locks alone. -/
def Action.LockFree : Action → Prop
  | .lockCommand | .unlockCommand | .lockMotor | .unlockMotor | .startWait _ | .wake => False
  | _ => True

section

variable {m : Motor} {t : ℕ} {a : Action} {ch : Choice} {s s' : State} {r : a.Res}

/-- An action that takes and gives no lock leaves both mutexes alone. -/
theorem perform_lockFree (ha : a.LockFree) (h : m.perform t a ch s = some (r, s')) :
    s'.commandMutex = s.commandMutex ∧ s'.motorMutex = s.motorMutex := by
  cases a with
  | lockCommand | unlockCommand | lockMotor | unlockMotor | startWait _ | wake => exact ha.elim
  | leave fn value =>
      obtain ⟨-, rfl⟩ := Prod.mk.inj (Option.some.inj h)
      simp only [State.close]
      split_ifs <;> exact ⟨rfl, rfl⟩
  | isConnected =>
      obtain rfl := perform_isConnected h
      exact ⟨rfl, rfl⟩
  | transmit fn frame => rcases perform_transmit h with ⟨-, rfl⟩ | ⟨-, rfl⟩ <;> exact ⟨rfl, rfl⟩
  | _ =>
      simp only [Motor.perform] at h
      repeat' split at h
      all_goals cases h
      all_goals exact ⟨rfl, rfl⟩

/-- What a thread holds is a matter of the two mutexes. -/
theorem held_congr (hcommand : s'.commandMutex = s.commandMutex)
    (hmotor : s'.motorMutex = s.motorMutex) (u : ℕ) : s'.held u = s.held u := by
  rw [State.held, State.held, State.commandCount, State.commandCount, hcommand, hmotor]

/-- Nor does it change what its thread holds. -/
theorem after_lockFree (ha : a.LockFree) (r : a.Res) (h : Held) : Held.after a r h = h := by
  cases a with
  | lockCommand | unlockCommand | lockMotor | unlockMotor | startWait _ | wake => exact ha.elim
  | _ => rfl

/-- The owner's count. -/
theorem commandCount_self {n : ℕ} (h : s.commandMutex = some (t, n)) : s.commandCount t = n := by
  rw [State.commandCount, h]
  exact if_pos rfl

/-- Nobody holds a free mutex. -/
theorem commandCount_free (h : s.commandMutex = none) (u : ℕ) : s.commandCount u = 0 := by
  rw [State.commandCount, h]

/-- Nobody but the owner holds it. -/
theorem commandCount_other {n u : ℕ} (h : s.commandMutex = some (t, n)) (hu : u ≠ t) :
    s.commandCount u = 0 := by
  rw [State.commandCount, h]
  exact if_neg (Ne.symm hu)

/-- What a thread holds, from its count and its ownership. -/
theorem held_eq {n : ℕ} {b : Bool} (hcommand : s.commandCount t = n)
    (hmotor : (s.motorMutex == some t) = b) : s.held t = ⟨n, b⟩ := by
  rw [State.held, hcommand, hmotor]

/-- Another thread is not the owner. -/
theorem beq_owner {u : ℕ} (hu : u ≠ t) : (some t == some u) = false :=
  beq_eq_false_iff_ne.mpr fun h => hu (Option.some.inj h).symm

/-- The thread takes and releases its own locks as `Held.after` says, and no others'. -/
structure Takes (t : ℕ) (a : Action) (r : a.Res) (s s' : State) : Prop where
  own : s'.held t = Held.after a r (s.held t)
  others : ∀ u, u ≠ t → s'.held u = s.held u

/-- No lock changes hands. -/
theorem takes_lockFree (ha : a.LockFree) (h : m.perform t a ch s = some (r, s')) :
    Takes t a r s s' := by
  obtain ⟨hcommand, hmotor⟩ := perform_lockFree ha h
  refine ⟨?_, fun u _ => held_congr hcommand hmotor u⟩
  rw [after_lockFree ha]
  exact held_congr hcommand hmotor t

/-- One more hold on `command_mutex_`, which was free or the thread's own. -/
theorem takes_lockCommand (h : m.perform t .lockCommand ch s = some ((), s')) :
    Takes t .lockCommand () s s' := by
  simp only [Motor.perform] at h
  split at h
  next hfree =>
    obtain ⟨-, rfl⟩ := Prod.mk.inj (Option.some.inj h)
    refine ⟨held_eq ?_ rfl, fun u hu => held_eq ?_ rfl⟩
    · rw [commandCount_self (n := 1) rfl, State.held, commandCount_free hfree]
    · rw [commandCount_other (n := 1) rfl hu, commandCount_free hfree]
  next u n hheld =>
    split_ifs at h with hu
    subst hu
    obtain ⟨-, rfl⟩ := Prod.mk.inj (Option.some.inj h)
    refine ⟨held_eq ?_ rfl, fun v hv => held_eq ?_ rfl⟩
    · rw [commandCount_self (n := n + 1) rfl, State.held, commandCount_self hheld]
    · rw [commandCount_other (n := n + 1) rfl hv, commandCount_other hheld hv]

/-- One hold less on `command_mutex_`, which is free after the last. -/
theorem takes_unlockCommand (h : m.perform t .unlockCommand ch s = some ((), s')) :
    Takes t .unlockCommand () s s' := by
  simp only [Motor.perform] at h
  split at h
  next => cases h
  next u n hheld =>
    split_ifs at h with hu hone
    · subst hu hone
      obtain ⟨-, rfl⟩ := Prod.mk.inj (Option.some.inj h)
      refine ⟨held_eq ?_ rfl, fun v hv => held_eq ?_ rfl⟩
      · rw [commandCount_free rfl, State.held, commandCount_self hheld]
        rfl
      · rw [commandCount_free rfl, commandCount_other hheld hv]
    · subst hu
      obtain ⟨-, rfl⟩ := Prod.mk.inj (Option.some.inj h)
      refine ⟨held_eq ?_ rfl, fun v hv => held_eq ?_ rfl⟩
      · rw [commandCount_self (n := n - 1) rfl, State.held, commandCount_self hheld]
      · rw [commandCount_other (n := n - 1) rfl hv, commandCount_other hheld hv]

/-- `motor_mutex_` is the thread's. -/
theorem takes_lockMotor (h : m.perform t .lockMotor ch s = some ((), s')) :
    Takes t .lockMotor () s s' := by
  simp only [Motor.perform] at h
  split_ifs at h with hfree
  obtain ⟨-, rfl⟩ := Prod.mk.inj (Option.some.inj h)
  refine ⟨held_eq rfl (beq_self_eq_true _), fun u hu => held_eq rfl ?_⟩
  rw [beq_owner hu, hfree]
  rfl

/-- `motor_mutex_` is free. -/
theorem takes_unlockMotor (h : m.perform t .unlockMotor ch s = some ((), s')) :
    Takes t .unlockMotor () s s' := by
  simp only [Motor.perform] at h
  split_ifs at h with hheld
  obtain ⟨-, rfl⟩ := Prod.mk.inj (Option.some.inj h)
  refine ⟨held_eq rfl rfl, fun u hu => held_eq rfl ?_⟩
  rw [hheld, beq_owner hu]
  rfl

/-- `wait_for` keeps `motor_mutex_`, or releases it where the thread holds it. -/
theorem takes_startWait {timeoutMs : ℕ} {ready : Bool} (hheld : (s.held t).motor = true)
    (h : m.perform t (.startWait timeoutMs) ch s = some (ready, s')) :
    Takes t (.startWait timeoutMs) ready s s' := by
  have howner : s.motorMutex = some t := eq_of_beq hheld
  simp only [Motor.perform] at h
  split_ifs at h
  · obtain ⟨rfl, rfl⟩ := Prod.mk.inj (Option.some.inj h)
    exact ⟨held_eq rfl hheld, fun u _ => held_eq rfl rfl⟩
  · obtain ⟨rfl, rfl⟩ := Prod.mk.inj (Option.some.inj h)
    refine ⟨held_eq rfl rfl, fun u hu => held_eq rfl ?_⟩
    rw [howner, beq_owner hu]
    rfl

/-- After a sleep `motor_mutex_` is the thread's again. -/
theorem takes_wake {received : Bool} (h : m.perform t .wake ch s = some (received, s')) :
    Takes t .wake received s s' := by
  have htaken : s.motorMutex = none ∧ s' = { s with motorMutex := some t } := by
    simp only [Motor.perform] at h
    repeat' split at h
    all_goals cases h
    all_goals exact ⟨by assumption, rfl⟩
  obtain ⟨hfree, rfl⟩ := htaken
  refine ⟨held_eq rfl (beq_self_eq_true _), fun u hu => held_eq rfl ?_⟩
  rw [beq_owner hu, hfree]
  rfl

/-- **Every action** that what is held allows. -/
theorem perform_takes (hallows : (s.held t).Allows a) (h : m.perform t a ch s = some (r, s')) :
    Takes t a r s s' := by
  cases a with
  | lockCommand => exact takes_lockCommand h
  | unlockCommand => exact takes_unlockCommand h
  | lockMotor => exact takes_lockMotor h
  | unlockMotor => exact takes_unlockMotor h
  | startWait timeoutMs => exact takes_startWait hallows h
  | wake => exact takes_wake h
  | _ => exact takes_lockFree trivial h

end

/-! ### Programs -/

/-- The program may be run holding `h`, and holds `h` at its end. -/
abbrev Level (h : Held) {α : Type} (p : Cmd α) : Prop := p.Balanced Held.Allows Held.after h

section

variable {n : ℕ}

/-- Both branches end at the level they began at. -/
theorem level_ite {α : Type} {b : Prop} [Decidable b] {h : Held} {p q : Cmd α} (hp : Level h p)
    (hq : Level h q) : Level h (if b then p else q) := by
  split_ifs
  · exact hp
  · exact hq

/-- So does a recorded body. -/
theorem level_recorded {h : Held} {fn : Fn} {body : Cmd Result} (hbody : Level h body) :
    Level h (recorded fn body) := by
  have henter : Level h (enter fn) := .perform trivial fun _ => rfl
  refine henter.bind fun _ => hbody.bind fun r => ?_
  have hleave : Level h (leave fn (.result r)) := .perform trivial fun _ => rfl
  exact hleave.bind fun _ => .ret r h

/-- What `command_mutex_` is taken for is given back at the end. -/
theorem level_withCommandMutex {α : Type} {body : Cmd α} (hbody : Level ⟨n + 1, false⟩ body) :
    Level ⟨n, false⟩ (withCommandMutex body) := by
  refine Track.act rfl fun _ => ?_
  exact hbody.track fun x => Track.act trivial fun _ => rfl

/-- The test for the connection takes no lock. -/
theorem level_isConnected {h : Held} : Level h isConnected := .perform trivial fun _ => rfl

/-- Nor does a transmit, as far as the motor's own locks go. -/
theorem level_transmit (fn : Fn) (frame : CanFrame) : Level ⟨n, false⟩ (transmit fn frame) :=
  .perform rfl fun _ => rfl

/-- `prepare_wait` gives `motor_mutex_` back. -/
theorem level_prepareWait (fn : Fn) (expected : FrameType) :
    Level ⟨n, false⟩ (prepareWait fn expected) :=
  ⟨rfl, fun _ => ⟨trivial, fun _ => ⟨trivial, fun _ => rfl⟩⟩⟩

/-- `wait_for` wakes with `motor_mutex_` again. -/
theorem level_waitForResponse (timeoutMs : ℕ) : Level ⟨n, false⟩ (waitForResponse timeoutMs) := by
  refine ⟨rfl, fun _ => ⟨rfl, fun ready => ?_⟩⟩
  cases ready with
  | true => exact ⟨trivial, fun _ => rfl⟩
  | false => exact ⟨rfl, fun _ => ⟨trivial, fun _ => rfl⟩⟩

/-- A synchronous command gives back what it takes. -/
theorem level_request (fn : Fn) (frame : CanFrame) (expected : FrameType) (timeoutMs : ℕ)
    (failed : Result → Result) :
    Level ⟨n, false⟩ (Motor.request fn frame expected timeoutMs failed) := by
  refine level_recorded (level_withCommandMutex (level_isConnected.bind fun _ => level_ite ?_ rfl))
  refine (level_prepareWait fn expected).bind fun _ => (level_transmit fn frame).bind fun _ => ?_
  exact level_ite (level_waitForResponse timeoutMs) rfl

variable (m : Motor)

/-- The safety stop of `check_overrun` takes `command_mutex_` itself. -/
theorem level_checkOverrun : Level ⟨n, false⟩ m.checkOverrun := by
  have hadd : Level ⟨n, false⟩ fetchAdd := .perform trivial fun _ => rfl
  have hstore : Level ⟨n, false⟩ (store m.overrunLimit) := .perform trivial fun _ => rfl
  refine hadd.bind fun _ => level_ite (hstore.bind fun _ => ?_) rfl
  have hstop : Level ⟨n, false⟩ m.stop := level_request _ _ _ _ _
  exact hstop.bind fun _ => rfl

/-- A control command, with the stop inside it, gives back what it takes. -/
theorem level_send (fn : Fn) (frame : Option CanFrame) : Level ⟨n, false⟩ (m.send fn frame) := by
  refine level_recorded (level_isConnected.bind fun _ => level_ite ?_ rfl)
  refine (level_checkOverrun m).bind fun _ => level_ite ?_ rfl
  cases frame with
  | none => exact ⟨trivial, fun r => r.elim⟩
  | some frame => exact level_transmit fn frame

/-- A write gives back what it takes. -/
theorem level_writeParameterRaw (paramId : BitVec 16) (rawPayload : BitVec 32) :
    Level ⟨n, false⟩ (m.writeParameterRaw paramId rawPayload) :=
  level_recorded (level_withCommandMutex (level_isConnected.bind fun _ =>
    level_ite (level_transmit _ _) rfl))

/-- A read gives back what it takes, `motor_mutex_` twice over. -/
theorem level_readParameterRaw (paramId : BitVec 16) :
    Level ⟨n, false⟩ (m.readParameterRaw paramId) := by
  have henter : Level ⟨n, false⟩ (enter (.readParameterRaw paramId)) := .perform trivial fun _ => rfl
  refine henter.bind fun _ => Balanced.bind (level_withCommandMutex ?_) fun value => ?_
  · refine level_isConnected.bind fun _ => level_ite ?_ rfl
    refine (level_prepareWait _ _).bind fun _ => (level_transmit _ _).bind fun _ => level_ite ?_ rfl
    refine (level_waitForResponse 100).bind fun _ => level_ite ?_ rfl
    exact ⟨rfl, fun _ => ⟨trivial, fun _ => ⟨trivial, fun _ => rfl⟩⟩⟩
  · exact ⟨trivial, fun _ => rfl⟩

/-- `setup_mode` gives back what its writes take. -/
theorem level_setupMode (mode : RunMode) (limit1 limit2 limit3 : CFloat) :
    Level ⟨n, false⟩ (m.setupMode mode limit1 limit2 limit3) := by
  have hwrite : ∀ (param : TypedParam) (raw : BitVec 32),
      Level ⟨n, false⟩ (m.writeParameter param raw) :=
    fun param raw => level_writeParameterRaw m param.id raw
  refine level_recorded ((hwrite _ _).bind fun _ => level_ite ?_ rfl)
  cases mode with
  | operation => exact rfl
  | current => exact rfl
  | speed =>
      exact (hwrite _ _).bind fun _ => Balanced.bind (level_ite (hwrite _ _) rfl) fun _ => rfl
  | positionCsp => exact (hwrite _ _).bind fun _ => rfl
  | position =>
      refine (hwrite _ _).bind fun _ => Balanced.bind (level_ite (hwrite _ _) rfl) fun _ => ?_
      exact Balanced.bind (level_ite (hwrite _ _) rfl) fun _ => rfl
  | other name value => exact rfl

/-- Everything between the two ends of `process_frame` is done under `motor_mutex_`. -/
theorem level_processFrame (reply : Reply) : Level ⟨n, false⟩ (m.processFrame reply) := by
  have hunlock : Track Held.Allows Held.after (fun _ h => h = ⟨n, false⟩) unlockMotor ⟨n, true⟩ :=
    ⟨trivial, fun _ => rfl⟩
  have hanswer : ∀ type : FrameType, Track Held.Allows Held.after (fun _ h => h = ⟨n, false⟩) (do
      let expected ← expectedType
      if type = expected then notify
      unlockMotor : Cmd Unit) ⟨n, true⟩ := by
    intro type
    refine Track.act trivial fun expected => ?_
    split_ifs
    · exact Track.act trivial fun _ => hunlock
    · exact hunlock
  unfold Motor.processFrame
  refine level_ite (Track.act rfl fun _ => Track.act trivial fun parsed => ?_) rfl
  split_ifs
  · refine Track.act trivial fun prev => ?_
    split_ifs
    · exact Track.act trivial fun _ => hanswer _
    · exact hanswer _
  · exact Track.act trivial fun _ => hunlock

/-- Dropping the result takes no lock. -/
theorem level_drop {α : Type} {p : Cmd α} (h : Level ⟨n, false⟩ p) :
    Level ⟨n, false⟩ (do let _ ← p : Cmd Unit) := h.bind fun _ => rfl

/-- Every function gives back what it takes. -/
theorem every_level : m.EveryFunction (Level ⟨n, false⟩) where
  request _ _ _ _ _ := level_drop (level_request _ _ _ _ _)
  send _ _ := level_drop (level_send m _ _)
  setupMode _ _ _ _ := level_drop (level_setupMode m _ _ _ _)
  stopPpMode := level_drop (level_recorded (level_writeParameterRaw m _ _))
  writeParameterRaw _ _ := level_drop (level_writeParameterRaw m _ _)
  readParameterRaw _ := level_drop (level_readParameterRaw m _)
  processFrame := level_processFrame m

/-- **Every operation** takes the locks of its motor in order and releases them. -/
theorem level_body (op : Op) : Level ⟨n, false⟩ (m.body op) := (every_level m).body op

end

/-! ### The locks of a fleet -/

/-- The locks: two for each motor, and `tx_mutex_`. -/
inductive FleetLock (ι : Type) where
  | command (i : ι)
  | motor (i : ι)
  | tx

/-- What a thread holds of all locks. -/
structure Holding (ι : Type) where
  motors : ι → Held
  tx : Bool

namespace Fleet

variable {ι : Type} [DecidableEq ι]

/-- No lock at all. -/
def idle : Holding ι where
  motors _ := .free
  tx := false

/-- What the thread holds in a state. -/
def hold (s : FleetState ι) (t : ℕ) : Holding ι where
  motors i := (s.motors i).held t
  tx := s.txMutex == some t

/-- The lock is among them. -/
def has (h : Holding ι) : FleetLock ι → Prop
  | .command i => 0 < (h.motors i).command
  | .motor i => (h.motors i).motor = true
  | .tx => h.tx = true

/-- The lock an action takes; the end of `wait_for` takes `motor_mutex_` again, after the reply. -/
def acquires : FleetAction ι → Option (FleetLock ι)
  | .on i .lockCommand => some (.command i)
  | .on i .lockMotor => some (.motor i)
  | .on i .wake => some (.motor i)
  | .lockTx => some .tx
  | _ => none

/-- What the thread holds after the action. -/
def after : (a : FleetAction ι) → a.Res → Holding ι → Holding ι
  | .on i a, r, h => { h with motors := Function.update h.motors i (Held.after a r (h.motors i)) }
  | .lockTx, _, h => { h with tx := true }
  | .unlockTx, _, h => { h with tx := false }
  | _, _, h => h

/-- What the motor's locks allow the thread to do next. -/
def pre (h : Holding ι) : FleetAction ι → Prop
  | .on i a => (h.motors i).Allows a
  | _ => True

/-- `command_mutex_` comes first, then one of the others. -/
def rank : FleetLock ι → ℕ
  | .command _ => 0
  | .motor _ => 1
  | .tx => 1

/-- `command_mutex_` may be taken again by its owner. -/
def recursive : FleetLock ι → Prop
  | .command _ => True
  | _ => False

/-- The locks of a fleet with their order. -/
def locking (motors : ι → Motor) : Locking (system motors) (FleetLock ι) (Holding ι) where
  hold := hold
  has := has
  acquires := acquires
  after := after
  pre := pre
  rank := rank
  recursive := recursive

/-! ### Actions of a fleet -/

section

variable {s s' : FleetState ι} {i : ι} {t u : ℕ}

/-- One motor's state changes what is held of its own locks. -/
theorem hold_set (own : State) (u : ℕ) : hold (s.set i own) u =
    { hold s u with motors := Function.update (hold s u).motors i (own.held u) } := by
  have hmotors : (fun j => ((Function.update s.motors i own) j).held u) =
      Function.update (fun j => (s.motors j).held u) i (own.held u) :=
    funext fun j => Function.apply_update (fun _ own => State.held own u) s.motors i own j
  exact congrArg (fun motors => (⟨motors, s.txMutex == some u⟩ : Holding ι)) hmotors

/-- Where the motor's locks are as before. -/
theorem hold_set_same {own : State} (h : own.held u = (s.motors i).held u) :
    hold (s.set i own) u = hold s u := by
  have hmotors : Function.update (hold s u).motors i ((s.motors i).held u) = (hold s u).motors :=
    Function.update_eq_self i _
  rw [hold_set, h, hmotors]

omit [DecidableEq ι] in
/-- What is held is a matter of the owner of `tx_mutex_`. -/
theorem hold_tx {o : Option ℕ} (h : (o == some u) = (s.txMutex == some u)) :
    hold { s with txMutex := o } u = hold s u :=
  congrArg (fun b => (⟨(hold s u).motors, b⟩ : Holding ι)) h

/-- An action on one motor takes and gives that motor's locks. -/
theorem takes_on {motors : ι → Motor} {a : Action} {ch : Choice} {r : a.Res}
    (hallows : ((hold s t).motors i).Allows a)
    (h : perform motors t (.on i a) ch s = some (r, s')) :
    hold s' t = after (.on i a) r (hold s t) ∧ ∀ u, u ≠ t → hold s' u = hold s u := by
  obtain ⟨⟨r', own⟩, hperform, heq⟩ := Option.map_eq_some_iff.mp h
  obtain ⟨rfl, rfl⟩ := Prod.mk.inj heq
  have htakes := perform_takes hallows hperform
  refine ⟨?_, fun u hu => hold_set_same (htakes.others u hu)⟩
  rw [hold_set, htakes.own]
  rfl

/-- A refused transmit takes nothing. -/
theorem takes_refuse {motors : ι → Motor} {fn : Fn} {frame : CanFrame} {ch : Choice} {r : Result}
    (h : perform motors t (.refuse i fn frame) ch s = some (r, s')) (u : ℕ) :
    hold s' u = hold s u := by
  cases ch with
  | go => cases h
  | connected b => cases h
  | transmitted v =>
      simp only [perform] at h
      split_ifs at h
      obtain ⟨⟨r', own⟩, hperform, heq⟩ := Option.map_eq_some_iff.mp h
      obtain ⟨rfl, rfl⟩ := Prod.mk.inj heq
      obtain ⟨hcommand, hmotor⟩ := perform_lockFree (a := .transmit fn frame) trivial hperform
      exact hold_set_same (held_congr hcommand hmotor u)

/-- `tx_mutex_` is the thread's. -/
theorem takes_tx {motors : ι → Motor} {ch : Choice}
    (h : perform motors t .lockTx ch s = some ((), s')) :
    hold s' t = { hold s t with tx := true } ∧ ∀ u, u ≠ t → hold s' u = hold s u := by
  simp only [perform] at h
  split_ifs at h with hfree
  obtain ⟨-, rfl⟩ := Prod.mk.inj (Option.some.inj h)
  constructor
  · exact congrArg (fun b => (⟨(hold s t).motors, b⟩ : Holding ι)) (beq_self_eq_true (some t))
  · intro u hu
    exact hold_tx (by rw [hfree, beq_owner hu]; rfl)

/-- `tx_mutex_` is free. -/
theorem gives_tx {motors : ι → Motor} {ch : Choice}
    (h : perform motors t .unlockTx ch s = some ((), s')) :
    hold s' t = { hold s t with tx := false } ∧ ∀ u, u ≠ t → hold s' u = hold s u := by
  simp only [perform] at h
  split_ifs at h with hheld
  obtain ⟨-, rfl⟩ := Prod.mk.inj (Option.some.inj h)
  refine ⟨rfl, fun u hu => hold_tx ?_⟩
  rw [hheld, beq_owner hu]
  rfl

/-- The line and the clock take no lock. -/
theorem env_hold {e : ι × BusEvent} (h : env e s = some s') (u : ℕ) : hold s' u = hold s u := by
  obtain ⟨own, henv, rfl⟩ := Option.map_eq_some_iff.mp h
  refine hold_set_same ?_
  rcases env_effect henv with ⟨arrived, received, replies, rfl⟩ | ⟨w, -, rfl⟩ <;> rfl

/-- `command_mutex_` can be taken again. -/
theorem lockCommand_again (motors : ι → Motor) (h : has (hold s t) (.command i)) :
    perform motors t (.on i .lockCommand) .go s ≠ none := by
  have hcount : 0 < (s.motors i).commandCount t := h
  have howner : ∃ n, (s.motors i).commandMutex = some (t, n) := by
    rw [State.commandCount] at hcount
    split at hcount
    next => cases hcount
    next v n hheld =>
      split_ifs at hcount with hv
      · exact ⟨n, by rw [hheld, hv]⟩
      · cases hcount
  obtain ⟨n, hheld⟩ := howner
  simp [perform, Motor.perform, hheld]

end

/-! ### Programs of a fleet -/

/-- The thread holds locks of motor `i` alone. -/
def only (i : ι) (h : Held) : Holding ι where
  motors := Function.update (fun _ => .free) i h
  tx := false

/-- The one motor's locks. -/
theorem only_motors (i : ι) (h : Held) : (only i h).motors i = h := by
  simp only [only, Function.update_self]

/-- Another motor's locks. -/
theorem only_other {i j : ι} (hj : j ≠ i) (h : Held) : (only i h).motors j = .free := by
  simp only [only, Function.update_of_ne hj]

/-- Nothing held of one motor is nothing held. -/
theorem only_free (i : ι) : only i .free = idle :=
  congrArg (fun motors => (⟨motors, false⟩ : Holding ι)) (Function.update_eq_self i _)

/-- An action on the motor changes what is held of it. -/
theorem after_only (i : ι) (h : Held) (a : Action) (r : a.Res) :
    after (.on i a) r (only i h) = only i (Held.after a r h) := by
  have hmotors : Function.update (only i h).motors i (Held.after a r ((only i h).motors i)) =
      (only i (Held.after a r h)).motors := by
    rw [only_motors]
    exact Function.update_idem _ _ _
  exact congrArg (fun motors => (⟨motors, false⟩ : Holding ι)) hmotors

/-- Locks of one motor are its two mutexes. -/
theorem has_only {i : ι} {h : Held} {l : FleetLock ι} (hl : has (only i h) l) :
    l = .command i ∨ l = .motor i ∧ h.motor = true := by
  cases l with
  | command j =>
      by_cases hj : j = i
      · exact .inl (congrArg FleetLock.command hj)
      · rw [has, only_other hj] at hl
        exact absurd hl (Nat.lt_irrefl 0)
  | motor j =>
      by_cases hj : j = i
      · subst hj
        rw [has, only_motors] at hl
        exact .inr ⟨rfl, hl⟩
      · rw [has, only_other hj] at hl
        cases hl
  | tx => cases hl

/-- Under the `command_mutex_` of a motor, every lock of its own and `tx_mutex_` may be taken. -/
theorem order_only {i : ι} {h : Held} (hmotor : h.motor = false) {l : FleetLock ι}
    (hl : l = .command i ∨ rank l = 1) {l' : FleetLock ι} (hl' : has (only i h) l') :
    rank l' < rank l ∨ l' = l ∧ recursive l := by
  rcases has_only hl' with rfl | ⟨-, htrue⟩
  · rcases hl with rfl | hrank
    · exact .inr ⟨rfl, trivial⟩
    · rw [hrank]
      exact .inl Nat.zero_lt_one
  · rw [hmotor] at htrue
    cases htrue

section

variable (motors : ι → Motor) (i : ι) {h : Held}

/-- What the motor's locks allow, the fleet's allow. -/
theorem allows_on {a : Action} (ha : h.Allows a) :
    (locking motors).Allows (only i h) (.on i a) := by
  refine ⟨?_, fun l hl l' hl' => ?_⟩
  · show ((only i h).motors i).Allows a
    rw [only_motors]
    exact ha
  · cases a with
    | lockCommand => exact order_only ha (.inl (Option.some.inj hl).symm) hl'
    | lockMotor =>
        obtain rfl := Option.some.inj hl
        exact order_only (l := .motor i) ha (.inr rfl) hl'
    | wake =>
        obtain rfl := Option.some.inj hl
        exact order_only (l := .motor i) ha (.inr rfl) hl'
    | _ => cases hl

/-- An action on the motor, its locks followed. -/
theorem track_on {a : Action} (ha : h.Allows a) :
    (Prog.perform (FleetAction.on i a) : FleetCmd ι a.Res).Track (locking motors).Allows
      (locking motors).after (fun r H => H = only i (Held.after a r h)) (only i h) :=
  ⟨allows_on motors i ha, fun r => after_only i h a r⟩

/-- `transmit` takes and releases `tx_mutex_`. -/
theorem track_transmit (fn : Fn) (frame : CanFrame) (hmotor : h.motor = false) :
    (transmit i fn frame).Track (locking motors).Allows (locking motors).after
      (fun _ H => H = only i h) (only i h) := by
  refine Track.act ⟨trivial, fun l hl => by cases hl⟩ fun accepted => ?_
  split_ifs
  · refine Track.act ⟨trivial, fun l hl l' hl' => ?_⟩ fun _ => ?_
    · obtain rfl := Option.some.inj hl
      exact order_only (l := .tx) hmotor (.inr rfl) hl'
    · refine Track.act ⟨?_, fun l hl => by cases hl⟩ fun r => ?_
      · show ((only i h).motors i).Allows (.transmit fn frame)
        rw [only_motors]
        exact hmotor
      · refine Track.act ⟨trivial, fun l hl => by cases hl⟩ fun _ => ?_
        have hsame := after_only i h (.transmit fn frame) r
        exact congrArg (fun H : Holding ι => (⟨H.motors, false⟩ : Holding ι)) hsame
  · exact ⟨⟨trivial, fun l hl => by cases hl⟩, fun _ => rfl⟩

/-- The same for the action as the fleet performs it, a transmit under `tx_mutex_`. -/
theorem track_act {a : Action} (ha : h.Allows a) :
    (act i a).Track (locking motors).Allows (locking motors).after
      (fun r H => H = only i (Held.after a r h)) (only i h) := by
  cases a with
  | transmit fn frame => exact track_transmit motors i fn frame ha
  | _ => exact track_on motors i ha

/-- A motor's program takes the locks of a fleet as it takes those of its motor. -/
theorem track_lift {α : Type} {p : Cmd α} {Q : α → Held → Prop}
    (hp : p.Track Held.Allows Held.after Q h) :
    (lift i p).Track (locking motors).Allows (locking motors).after
      (fun x H => ∃ h', H = only i h' ∧ Q x h') (only i h) := by
  induction p generalizing h with
  | ret x => exact ⟨h, rfl, hp⟩
  | act a k ih =>
      refine Track.bind (track_act motors i hp.1) fun r H hH => ?_
      subst hH
      exact ih r (hp.2 r)

/-- An operation on one motor. -/
theorem balanced_lift {p : Cmd Unit} (hp : Level .free p) :
    (lift i p).Balanced (locking motors).Allows (locking motors).after idle := by
  have hlift := track_lift motors i hp
  rw [only_free] at hlift
  refine Track.mono hlift ?_
  rintro x H ⟨h', rfl, rfl⟩
  exact only_free i

end

/-- A receive thread gives back each motor's mutex before it goes on to the next. -/
theorem balanced_dispatch (motors : ι → Motor) (reply : Reply) (rest : List ι) :
    (dispatch motors reply rest).Balanced (locking motors).Allows (locking motors).after idle := by
  induction rest with
  | nil => exact rfl
  | cons i rest ih =>
      exact (balanced_lift motors i (level_processFrame (motors i) reply)).bind fun _ => ih

/-- Every operation takes its locks in order. -/
theorem orderly_body (motors : ι → Motor) (op : Op ι) :
    (locking motors).Orderly idle (body motors op) idle := by
  cases op with
  | call i op => exact balanced_lift motors i (level_body (motors i) op)
  | receive rest reply => exact balanced_dispatch motors reply rest

/-- The fleet's locks change hands only as `locking` says. -/
theorem locking_sound (motors : ι → Motor) : (locking motors).Sound idle where
  step {t a ch s r s'} := by
    intro hallows h
    cases a with
    | on i a => exact takes_on hallows.1 h
    | accepts =>
        cases ch with
        | connected b =>
            obtain ⟨-, rfl⟩ := Prod.mk.inj (Option.some.inj h)
            exact ⟨rfl, fun _ _ => rfl⟩
        | go => cases h
        | transmitted v => cases h
    | refuse i fn frame => exact ⟨takes_refuse h t, fun u _ => takes_refuse h u⟩
    | lockTx =>
        have hlock : perform motors t .lockTx ch s = some ((), s') := h
        exact takes_tx hlock
    | unlockTx =>
        have hunlock : perform motors t .unlockTx ch s = some ((), s') := h
        exact gives_tx hunlock
  call {t op s s'} := by
    intro h
    obtain rfl := Option.some.inj h
    exact ⟨fun _ => rfl, orderly_body motors op⟩
  env := fun h u => env_hold h u
  again {t a l s} := by
    intro hl hrecursive hhas
    cases l with
    | command i =>
        refine ⟨.go, ?_⟩
        have ha : a = .on i .lockCommand := by
          cases a with
          | on j a =>
              cases a with
              | lockCommand => rw [FleetLock.command.inj (Option.some.inj hl)]
              | lockMotor => cases hl
              | wake => cases hl
              | _ => cases hl
          | _ => cases hl
        subst ha
        exact lockCommand_again motors hhas
    | motor i => exact hrecursive.elim
    | tx => exact hrecursive.elim

/-- **No deadlock.**  In every state that any run of any number of threads on any number of motors
reaches, no threads wait for locks in a circle, and a thread that holds a `motor_mutex_` is at no
action that waits for a lock or for a reply. -/
theorem fleet_locks (motors : ι → Motor) {es : List (Event (system motors))}
    {c : Config (system motors)} (h : (initial motors).run es = some c) :
    (∀ t, ¬ Relation.TransGen ((locking motors).WaitsFor c) t t) ∧
      ∀ t i a k, has (hold c.state t) (.motor i) → c.threads t = .act a k →
        acquires a = none := by
  have hstart : (locking motors).Ok idle (initial motors) := fun t => rfl
  have hok := Locking.run_ok (locking_sound motors) hstart h
  refine ⟨fun t => Locking.no_cycle (locking_sound motors) hok t, ?_⟩
  intro t i a k hmotor ht
  have hheld : (locking motors).has ((locking motors).hold c.state t) (.motor i) := hmotor
  cases hl : acquires a with
  | none => rfl
  | some l =>
      -- No lock has a higher rank than `motor_mutex_`, and it is not recursive.
      rcases hok.order ht hl hheld with hlt | ⟨rfl, hrecursive⟩
      · cases l with
        | command j => exact absurd hlt (Nat.not_lt_zero 1)
        | motor j => exact absurd hlt (Nat.lt_irrefl 1)
        | tx => exact absurd hlt (Nat.lt_irrefl 1)
      · exact hrecursive.elim

/-- Two motors on one transport. -/
def pair (mit : Bool) : Motor := Motor.sample (if mit then .mit else .priv)

/-- One thread takes the `command_mutex_` of each motor, and a third receives for both. -/
def contention : List (Event (system pair)) :=
  [.call 0 (Op.call false .enable), .call 1 (Op.call true .stop), .step 0 Choice.go,
    .step 0 Choice.go, .step 1 Choice.go, .step 1 Choice.go,
    .call 2 (Op.receive [true, false] ⟨sampleReply .feedback, none⟩)]

theorem fleet_locks_pair : ∃ c : Config (system pair), (initial pair).run contention = some c ∧
    (∀ t, ¬ Relation.TransGen ((locking pair).WaitsFor c) t t) ∧
      ∀ t i a k, has (hold c.state t) (.motor i) → c.threads t = .act a k → acquires a = none := by
  have hruns : ((initial pair).run contention).isSome = true := rfl
  obtain ⟨c, hc⟩ := Option.isSome_iff_exists.mp hruns
  exact ⟨c, hc, fleet_locks pair hc⟩

end Fleet

end Robstride
