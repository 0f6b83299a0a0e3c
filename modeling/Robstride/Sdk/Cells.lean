import Robstride.Sdk.Ring

/-!
# Sdk — Serial ring buffer, index by index

`SerialRingBuffer` once more, with its `size_t` members unbounded and each subtraction of
`size`, `push` and `pop_frame` checked: `none` where one goes below zero.  The loop of
`pop_frame` takes its turns one at a time.

From the members of a `SerialRingBuffer` no subtraction fails, and the results are those of
`Sdk/Ring.lean` (`size_members`, `push_members`, `popFrame_members`).
-/

namespace Robstride

/-- `a - b` on `size_t`, `none` where it wraps below zero. -/
def subSize (a b : ℕ) : Option ℕ := if b ≤ a then some (a - b) else none

/-- A difference of `size_t` that does not wrap. -/
theorem subSize_eq {a b : ℕ} (h : b ≤ a) : subSize a b = some (a - b) := if_pos h

/-- The members of the class. -/
structure RingMembers where
  buf : Vector Byte 512
  head : ℕ
  tail : ℕ

/-- The calls on the buffer. -/
inductive RingCall where
  | reset
  | push (src : List Byte)
  | popFrame (frameLen : ℕ)
  deriving DecidableEq

namespace RingMembers

/-- The buffer as constructed. -/
def initial : RingMembers := ⟨Vector.replicate 512 0, 0, 0⟩

/-- `head_ = tail_ = 0`. -/
def reset (m : RingMembers) : RingMembers := { m with head := 0, tail := 0 }

/-- `(tail_ + CAPACITY - head_) % CAPACITY`. -/
def size (m : RingMembers) : Option ℕ := do
  let used ← subSize (m.tail + 512) m.head
  return used % 512

/-- `buf_[pos & (CAPACITY - 1)]`. -/
def read (m : RingMembers) (pos : ℕ) : Byte :=
  have hlt := mask_lt pos
  m.buf[pos &&& 511]

/-- One turn of the loop of `push`. -/
def pushByte (m : RingMembers) (b : Byte) : RingMembers where
  buf := m.buf.set (m.tail &&& 511) b (mask_lt _)
  head := m.head
  tail := (m.tail + 1) &&& 511

/-- `push`, each subtraction checked. -/
def push (m : RingMembers) (src : List Byte) : Option RingMembers := do
  let used ← m.size
  let free ← subSize 512 used
  let space ← subSize free 1
  let len := if src.length > space then space else src.length
  return (src.take len).foldl pushByte m

/-- The comparison of `pop_frame` at `start`. -/
def frameAt (m : RingMembers) (frameLen start : ℕ) : Option Bool := do
  let b0 := m.read (m.head + start)
  let b1 := m.read (m.head + start + 1)
  let crPos ← subSize (m.head + start + frameLen) 2
  let lfPos ← subSize (m.head + start + frameLen) 1
  return b0 == 0x41 && b1 == 0x54 && m.read crPos == 0x0D && m.read lfPos == 0x0A

/-- The turns of the loop of `pop_frame` from `start` on: the `start` it stops at, if any.
`none` also where `turns` are too few. -/
def findFrame (m : RingMembers) (frameLen avail : ℕ) : (turns start : ℕ) → Option (Option ℕ)
  | 0, _ => none
  | turns + 1, start =>
      if start + frameLen ≤ avail then do
        let found ← m.frameAt frameLen start
        if found then return some start
        else m.findFrame frameLen avail turns (start + 1)
      else return none

/-- `head_ = (head_ + n) & (CAPACITY - 1)`. -/
def advance (m : RingMembers) (n : ℕ) : RingMembers := { m with head := (m.head + n) &&& 511 }

/-- What `pop_frame` does once its loop is over: the frame copied out where it returns `true`. -/
def takeFrame (m : RingMembers) (frameLen : ℕ) : Option ℕ → Option (List Byte) × RingMembers
  | none => (none, m)
  | some start =>
      let m := m.advance start
      let out := (List.range frameLen).map fun i => m.read (m.head + i)
      (some out, m.advance frameLen)

/-- `pop_frame`, each subtraction checked. -/
def popFrame (m : RingMembers) (frameLen : ℕ) : Option (Option (List Byte) × RingMembers) := do
  let avail ← m.size
  if avail < frameLen then return (none, m)
  else
    let start ← m.findFrame frameLen avail (avail + 1) 0
    return m.takeFrame frameLen start

/-- A call, with the frame it outputs. -/
def call (m : RingMembers) : RingCall → Option (Option (List Byte) × RingMembers)
  | .reset => some (none, m.reset)
  | .push src => (m.push src).map fun m' => (none, m')
  | .popFrame frameLen => m.popFrame frameLen

/-- `push` never moves the read index. -/
theorem foldl_pushByte_head (m : RingMembers) (src : List Byte) :
    (src.foldl pushByte m).head = m.head := by
  induction src generalizing m with
  | nil => rfl
  | cons b src ih => exact ih (m.pushByte b)

end RingMembers

namespace SerialRingBuffer

/-- The members of a buffer, its bounds forgotten. -/
def members (rb : SerialRingBuffer) : RingMembers := ⟨rb.buf, rb.head, rb.tail⟩

/-- A byte pushed is the same byte written. -/
theorem members_pushByte (rb : SerialRingBuffer) (b : Byte) :
    (rb.pushByte b).members = rb.members.pushByte b := rfl

/-- The read index moves alike. -/
theorem members_advance (rb : SerialRingBuffer) (n : ℕ) :
    (rb.advance n).members = rb.members.advance n := rfl

/-- So do the turns of the loop of `push`. -/
theorem members_foldl (rb : SerialRingBuffer) (src : List Byte) :
    (src.foldl pushByte rb).members = src.foldl RingMembers.pushByte rb.members := by
  induction src generalizing rb with
  | nil => rfl
  | cons b src ih => rw [List.foldl_cons, List.foldl_cons, ih, members_pushByte]

/-- An index read is a byte peeked. -/
theorem read_members (rb : SerialRingBuffer) (i : ℕ) :
    rb.members.read (rb.members.head + i) = rb.peek i := rfl

/-- `size` does not wrap. -/
theorem size_members (rb : SerialRingBuffer) : rb.members.size = some rb.size := by
  have hhead := rb.head_lt
  rw [RingMembers.size, members, subSize_eq (by simp only; omega)]
  rfl

/-- `push` does not wrap, and leaves the members of the buffer pushed to. -/
theorem push_members (rb : SerialRingBuffer) (src : List Byte) :
    rb.members.push src = some (rb.push src).members := by
  have hsize := rb.size_lt
  simp only [RingMembers.push, size_members, Option.bind_eq_bind, Option.bind_some]
  rw [subSize_eq (by omega), Option.bind_some, subSize_eq (by omega), push, members_foldl]
  rfl

/-- The comparison of `pop_frame` does not wrap and compares the same bytes. -/
theorem frameAt_members (rb : SerialRingBuffer) {frameLen : ℕ} (hlen : 2 ≤ frameLen)
    (start : ℕ) : rb.members.frameAt frameLen start = some (rb.frameAt frameLen start) := by
  have hcr : rb.members.head + start + frameLen - 2 = rb.members.head + (start + frameLen - 2) := by
    omega
  have hlf : rb.members.head + start + frameLen - 1 = rb.members.head + (start + frameLen - 1) := by
    omega
  rw [RingMembers.frameAt, subSize_eq (by omega), Option.bind_eq_bind, Option.bind_some,
    subSize_eq (by omega), hcr, hlf, Nat.add_assoc]
  rfl

/-- The loop stops at the first `start` that passes, within `avail + 1` turns. -/
theorem findFrame_members_from (rb : SerialRingBuffer) {frameLen avail : ℕ} (hlen : 2 ≤ frameLen)
    {turns start : ℕ} (hstart : start ≤ avail) (hturns : avail < start + turns) :
    rb.members.findFrame frameLen avail turns start =
      some ((List.range' start (avail + 1 - frameLen - start)).find? (rb.frameAt frameLen)) := by
  induction turns generalizing start with
  | zero => omega
  | succ turns ih =>
      rw [RingMembers.findFrame]
      by_cases hfit : start + frameLen ≤ avail
      · have hlast : avail + 1 - frameLen - start = avail + 1 - frameLen - (start + 1) + 1 := by
          omega
        rw [if_pos hfit, frameAt_members rb hlen, Option.bind_eq_bind, Option.bind_some, hlast,
          List.range'_succ, List.find?_cons]
        cases rb.frameAt frameLen start with
        | true => rfl
        | false => exact ih (by omega) (by omega)
      · have hnone : avail + 1 - frameLen - start = 0 := by omega
        rw [if_neg hfit, hnone]
        rfl

/-- The loop of `pop_frame` has turns enough and stops at the first window. -/
theorem findFrame_members (rb : SerialRingBuffer) {frameLen : ℕ} (hlen : 2 ≤ frameLen) :
    rb.members.findFrame frameLen rb.size (rb.size + 1) 0 = some (rb.findFrame frameLen) := by
  rw [findFrame_members_from rb hlen (Nat.zero_le _) (by omega), findFrame, List.range_eq_range']
  rfl

/-- The frame copied out is the window found. -/
theorem takeFrame_members (rb : SerialRingBuffer) (frameLen start : ℕ) :
    rb.members.takeFrame frameLen (some start) =
      (some (Vector.ofFn fun i : Fin frameLen => (rb.advance start).peek i).toList,
        ((rb.advance start).advance frameLen).members) := by
  rw [RingMembers.takeFrame, ← members_advance, ← members_advance]
  congr 2
  refine List.ext_getElem (by simp) fun i h₁ h₂ => ?_
  simp [read_members]

/-- **Pop**: `true` with the frame, or `false` with the members as they were. -/
theorem popFrame_members (rb : SerialRingBuffer) {frameLen : ℕ} (hlen : 2 ≤ frameLen) :
    rb.members.popFrame frameLen = some ((rb.popFrame frameLen).map (fun p => p.1.toList),
      (((rb.popFrame frameLen).map Prod.snd).getD rb).members) := by
  rw [RingMembers.popFrame, size_members, Option.bind_eq_bind, Option.bind_some, popFrame]
  by_cases hshort : rb.size < frameLen
  · rw [if_pos hshort, if_pos hshort]
    rfl
  · rw [if_neg hshort, if_neg hshort, findFrame_members rb hlen, Option.bind_eq_bind,
      Option.bind_some]
    cases rb.findFrame frameLen with
    | none => rfl
    | some start => rw [takeFrame_members]; rfl

end SerialRingBuffer

end Robstride
