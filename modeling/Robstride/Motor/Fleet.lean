import Robstride.Motor.System

/-!
# Motor — Fleet

Any number of motors on one transport, and the threads that call them or receive for them.  A motor
is as in `Motor/System.lean`; what comes on is the transport's own lock, which `transmit` takes
around its `write` unless it refuses before, and the loops that hand a frame to one motor after
another.  Any frame may be received at any time.
-/

namespace Robstride

open Support Support.Pool

variable {ι : Type} [DecidableEq ι]

/-! ### State -/

/-- The states of the motors, and the transport they share. -/
structure FleetState (ι : Type) where
  motors : ι → State
  /-- The owner of the transport's `tx_mutex_`. -/
  txMutex : Option ℕ

/-- One motor's state changes. -/
def FleetState.set (s : FleetState ι) (i : ι) (own : State) : FleetState ι where
  motors := Function.update s.motors i own
  txMutex := s.txMutex

/-- Every motor as constructed, the transport free. -/
def Fleet.initialState (motors : ι → Motor) : FleetState ι where
  motors i := (motors i).initialState
  txMutex := none

/-! ### Actions -/

/-- The actions on the motors, and those inside `transmit`. -/
inductive FleetAction (ι : Type) where
  /-- An action on one motor; a `transmit` is the `write`. -/
  | on (i : ι) (a : Action)
  /-- The tests of `transmit` before it takes the lock. -/
  | accepts
  /-- What `transmit` returns where they fail. -/
  | refuse (i : ι) (fn : Fn) (frame : CanFrame)
  | lockTx
  | unlockTx

/-- What an action answers. -/
@[reducible] def FleetAction.Res : FleetAction ι → Type
  | .on _ a => a.Res
  | .accepts => Bool
  | .refuse _ _ _ => Result
  | .lockTx | .unlockTx => Unit

/-- A program over these actions. -/
abbrev FleetCmd (ι : Type) (α : Type) := Prog (FleetAction ι) FleetAction.Res α

/-- What an action of thread `t` answers and leaves, `none` while it is blocked. -/
def Fleet.perform (motors : ι → Motor) (t : ℕ) :
    (a : FleetAction ι) → Choice → FleetState ι → Option (a.Res × FleetState ι)
  | .on i a, ch, s =>
      ((motors i).perform t a ch (s.motors i)).map fun p => (p.1, s.set i p.2)
  | .accepts, .connected b, s => some (b, s)
  | .accepts, _, _ => none
  | .refuse i fn frame, .transmitted r, s =>
      if r = .success then none
      else ((motors i).perform t (.transmit fn frame) (.transmitted r) (s.motors i)).map
        fun p => (p.1, s.set i p.2)
  | .refuse _ _ _, _, _ => none
  | .lockTx, _, s => if s.txMutex = none then some ((), { s with txMutex := some t }) else none
  | .unlockTx, _, s => if s.txMutex = some t then some ((), { s with txMutex := none }) else none

/-! ### Programs -/

namespace Fleet

/-- `transmit` of the transport. -/
def transmit (i : ι) (fn : Fn) (frame : CanFrame) : FleetCmd ι Result := do
  if ← .perform FleetAction.accepts then
    let _ ← .perform FleetAction.lockTx
    let r ← .perform (FleetAction.on i (Action.transmit fn frame))
    let _ ← .perform FleetAction.unlockTx
    return r
  else .perform (FleetAction.refuse i fn frame)

/-- An action of a motor's program. -/
def act (i : ι) : (a : Action) → FleetCmd ι a.Res
  | .transmit fn frame => transmit i fn frame
  | a => .perform (FleetAction.on i a)

/-- A program of motor `i`. -/
def lift {α : Type} (i : ι) : Cmd α → FleetCmd ι α
  | .ret x => .ret x
  | .act a k => act i a >>= fun r => lift i (k r)

/-- A call of a public function of a motor, or a frame that the loop of `Motor::receive` or
`Motor::receive_all` hands to its motors. -/
inductive Op (ι : Type) where
  | call (i : ι) (op : Robstride.Op)
  | receive (motors : List ι) (reply : Reply)

/-- The frame goes to one motor after another. -/
def dispatch (motors : ι → Motor) (reply : Reply) : List ι → FleetCmd ι Unit
  | [] => .ret ()
  | i :: rest => lift i ((motors i).processFrame reply) >>= fun _ => dispatch motors reply rest

/-- The program of an operation; a receive thread hands its frame to the motors that are left. -/
def body (motors : ι → Motor) : Op ι → FleetCmd ι Unit
  | .call i op => lift i ((motors i).body op)
  | .receive rest reply => dispatch motors reply rest

/-- What happens on the bus of a motor. -/
def env (e : ι × BusEvent) (s : FleetState ι) : Option (FleetState ι) :=
  ((s.motors e.1).env e.2).map fun own => s.set e.1 own

/-- The threads on all motors. -/
@[reducible] def system (motors : ι → Motor) : System where
  Act := FleetAction ι
  Res := FleetAction.Res
  State := FleetState ι
  Choice := Choice
  Op := Op ι
  Env := ι × BusEvent
  perform := perform motors
  body := body motors
  call _ _ s := some s
  env := env

/-- Every thread idle, the motors as constructed. -/
abbrev initial (motors : ι → Motor) : Config (system motors) := start (initialState motors)

end Fleet

end Robstride
