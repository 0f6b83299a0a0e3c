import Robstride.Sdk.Motor

/-!
# Sdk — Status

`Motor::get_status`: the copy of `status_` is one more action, besides those of `Sdk/Motor.lean`,
and it is made under `motor_mutex_`.
-/

namespace Robstride

open Support (Prog)

/-- The actions, with the copy that `get_status` makes. -/
inductive StatusAction where
  | own (a : Action)
  /-- The copy constructor on `status_`. -/
  | copyStatus
  deriving DecidableEq

/-- What an action answers. -/
@[reducible] def StatusAction.Res : StatusAction → Type
  | .own a => a.Res
  | .copyStatus => MotorStatus

/-- A program over these actions. -/
abbrev StatusCmd (α : Type) := Prog StatusAction StatusAction.Res α

/-- `Motor::get_status`. -/
def getStatus : StatusCmd MotorStatus := do
  let _ ← .perform (StatusAction.own .lockMotor)
  let status ← .perform StatusAction.copyStatus
  let _ ← .perform (StatusAction.own .unlockMotor)
  return status

/-- The program of another operation. -/
def Cmd.withStatus {α : Type} : Cmd α → StatusCmd α
  | .ret x => .ret x
  | .act a k => .act (StatusAction.own a) fun r => Cmd.withStatus (k r)

/-- The operations, with `get_status`. -/
inductive StatusOp where
  | call (op : Op)
  | getStatus

/-- The program of an operation. -/
def Motor.statusBody (m : Motor) : StatusOp → StatusCmd Unit
  | .call op => (m.body op).withStatus
  | .getStatus => do let _ ← getStatus

end Robstride
