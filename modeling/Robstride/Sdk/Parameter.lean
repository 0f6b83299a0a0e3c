import Robstride.Sdk.Motor
import Robstride.Support.Bytes

/-!
# Sdk — Typed parameters

`write_parameter<T>` and `read_parameter<T>` of `robstride_motor.h`, at the types of the
parameters of `robstride_types.h`.  A value is its bits, and its object is little-endian.
-/

namespace Robstride

open Support

/-- The types `T` of the `TypedParam<T>` constants. -/
inductive ParamType where
  | uint8
  | uint16
  | uint32
  | float
  deriving DecidableEq

namespace ParamType

/-- `sizeof(T)`. -/
def size : ParamType → ℕ
  | uint8 => 1
  | uint16 => 2
  | uint32 => 4
  | float => 4

/-- The bits of a value. -/
abbrev Value (T : ParamType) : Type := BitVec (8 * T.size)

/-- No parameter is larger than the payload of its frame. -/
theorem size_le (T : ParamType) : T.size ≤ 4 := by cases T <;> decide

/-- `uint32_t raw = 0; memcpy(&raw, &value, sizeof(T));`. -/
def toRaw (T : ParamType) (value : T.Value) : BitVec 32 :=
  ofBytes (n := 4) (memcpy (toBytes (n := 4) 0) (toBytes value) T.size T.size_le le_rfl)

/-- `memcpy(&value, &raw, sizeof(T));` over a `value` that holds anything. -/
def ofRaw (T : ParamType) (value : T.Value) (raw : BitVec 32) : T.Value :=
  ofBytes (memcpy (toBytes value) (toBytes (n := 4) raw) T.size le_rfl T.size_le)

end ParamType

namespace Motor

/-- `write_parameter<T>`. -/
def writeParameterAs (m : Motor) (T : ParamType) (param : TypedParam) (value : T.Value) :
    Cmd Result :=
  m.writeParameter param (T.toRaw value)

/-- `read_parameter<T>`, whose `value` holds `indeterminate` before it is assigned. -/
def readParameterAs (m : Motor) (T : ParamType) (indeterminate : T.Value) (param : TypedParam) :
    Cmd (Option T.Value) := do
  let rawOpt ← m.readParameterRaw param.id
  return rawOpt.map (T.ofRaw indeterminate)

end Motor

namespace ParamType

variable {T : ParamType} {value : T.Value}

/-- `memcpy` puts the value's bytes first in the word. -/
theorem toBytes_toRaw {i : ℕ} (hi : i < T.size) :
    toBytes (n := 4) (T.toRaw value) ⟨i, hi.trans_le T.size_le⟩ = toBytes value ⟨i, hi⟩ := by
  rw [toRaw, toBytes_ofBytes, memcpy_of_lt hi]

/-- A word that begins with the bytes of a value is read as the value. -/
theorem ofRaw_eq {indeterminate : T.Value} {raw : BitVec 32}
    (h : ∀ i (hi : i < T.size), toBytes (n := 4) raw ⟨i, hi.trans_le T.size_le⟩ =
      toBytes value ⟨i, hi⟩) : T.ofRaw indeterminate raw = value := by
  rw [ofRaw, memcpy_all]
  refine toBytes_injective fun i => ?_
  rw [toBytes_ofBytes]
  exact h i i.isLt

end ParamType

end Robstride
