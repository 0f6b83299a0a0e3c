import Robstride.Sdk.Types
import Robstride.Support.Circular
import Robstride.Support.Window

/-!
# Sdk — Serial ring buffer

`SerialRingBuffer` of `robstride_transport.h` and `robstride_transport.cpp`: `CAPACITY = 512`
cells, a read index and a write index, both masked with `CAPACITY - 1`.

The buffer is a queue of bytes (`contents`, oldest first).  Over `contents`, `push` appends what
fits (`push_contents`) and `popFrame` is the window scan of `Support/Window.lean`
(`popFrame_refines`).  Everything proved about the receiver uses these two theorems only.
-/

namespace Robstride

open Support

/-! ### The buffer -/

/-- The members, with both indices in the array. -/
structure SerialRingBuffer where
  buf : Vector Byte 512
  head : ℕ
  tail : ℕ
  head_lt : head < 512
  tail_lt : tail < 512

/-- `pos & (CAPACITY - 1)` is below `CAPACITY`. -/
theorem mask_lt (pos : ℕ) : pos &&& 511 < 512 := Nat.lt_succ_of_le Nat.and_le_right

/-- The mask is the remainder. -/
theorem mask_eq_mod (pos : ℕ) : pos &&& 511 = pos % 512 := Nat.and_two_pow_sub_one_eq_mod pos 9

namespace SerialRingBuffer

/-- The buffer as constructed. -/
def initial : SerialRingBuffer where
  buf := Vector.replicate 512 0
  head := 0
  tail := 0
  head_lt := by omega
  tail_lt := by omega

/-- Both indices to zero; the bytes stay. -/
def reset (rb : SerialRingBuffer) : SerialRingBuffer where
  buf := rb.buf
  head := 0
  tail := 0
  head_lt := by omega
  tail_lt := by omega

/-- The bytes between the read index and the write index. -/
def size (rb : SerialRingBuffer) : ℕ := (rb.tail + 512 - rb.head) % 512

/-- One turn of the loop of `push`. -/
def pushByte (rb : SerialRingBuffer) (b : Byte) : SerialRingBuffer where
  buf := rb.buf.set (rb.tail &&& 511) b (mask_lt _)
  head := rb.head
  tail := (rb.tail + 1) &&& 511
  head_lt := rb.head_lt
  tail_lt := mask_lt _

/-- `len` after the clamp of `push`. -/
def clampLen (rb : SerialRingBuffer) (len : ℕ) : ℕ :=
  let space := 512 - rb.size - 1
  if len > space then space else len

/-- What fits of `src`, byte by byte. -/
def push (rb : SerialRingBuffer) (src : List Byte) : SerialRingBuffer :=
  (src.take (rb.clampLen src.length)).foldl pushByte rb

/-- `buf_[(head_ + i) & (CAPACITY - 1)]`. -/
def peek (rb : SerialRingBuffer) (i : ℕ) : Byte :=
  have hlt := mask_lt (rb.head + i)
  rb.buf[(rb.head + i) &&& 511]

/-- The test of `pop_frame` at `start`.  Its one caller passes a `frameLen` of 17. -/
def frameAt (rb : SerialRingBuffer) (frameLen start : ℕ) : Bool :=
  let b0 := rb.peek start
  let b1 := rb.peek (start + 1)
  let cr := rb.peek (start + frameLen - 2)
  let lf := rb.peek (start + frameLen - 1)
  b0 == 0x41 && b1 == 0x54 && cr == 0x0D && lf == 0x0A

/-- The loop of `pop_frame`: the first `start` that passes the test. -/
def findFrame (rb : SerialRingBuffer) (frameLen : ℕ) : Option ℕ :=
  let avail := rb.size
  (List.range (avail + 1 - frameLen)).find? (rb.frameAt frameLen)

/-- `head_ = (head_ + n) & (CAPACITY - 1)`. -/
def advance (rb : SerialRingBuffer) (n : ℕ) : SerialRingBuffer where
  buf := rb.buf
  head := (rb.head + n) &&& 511
  tail := rb.tail
  head_lt := mask_lt _
  tail_lt := rb.tail_lt

/-- `out` and the buffer left, `none` where the code returns `false`. -/
def popFrame (rb : SerialRingBuffer) (frameLen : ℕ) :
    Option (Vector Byte frameLen × SerialRingBuffer) :=
  if rb.size < frameLen then none
  else
    match rb.findFrame frameLen with
    | none => none
    | some start =>
        let rb := rb.advance start
        let out := Vector.ofFn fun i : Fin frameLen => rb.peek i
        some (out, rb.advance frameLen)

/-! ### The buffer as a queue -/

/-- The unconsumed bytes, oldest first. -/
def contents (rb : SerialRingBuffer) : List Byte := Circular.contents rb.buf rb.head rb.size

/-- One cell stays unused. -/
theorem size_lt (rb : SerialRingBuffer) : rb.size < 512 := Nat.mod_lt _ (by omega)

/-- The queue is as long as `size` says. -/
@[simp] theorem contents_length (rb : SerialRingBuffer) : rb.contents.length = rb.size := by
  simp [contents]

/-- A new buffer is empty. -/
@[simp] theorem contents_initial : initial.contents = [] :=
  List.eq_nil_of_length_eq_zero (by simp [size, initial])

/-- A reset buffer is empty. -/
@[simp] theorem contents_reset (rb : SerialRingBuffer) : rb.reset.contents = [] :=
  List.eq_nil_of_length_eq_zero (by simp [size, reset])

/-- `peek` is a cell of the circular array. -/
theorem peek_eq_cell (rb : SerialRingBuffer) (i : ℕ) :
    rb.peek i = Circular.cell rb.buf rb.head i := by
  simp only [peek, Circular.cell, mask_eq_mod]

/-- `peek` reads the queue. -/
theorem peek_eq (rb : SerialRingBuffer) {i : ℕ} (hi : i < rb.size) :
    rb.contents[i]? = some (rb.peek i) := by
  rw [contents, Circular.contents_getElem? _ _ hi, peek_eq_cell]

/-- The write index is `size` places after the read index. -/
theorem tail_eq (rb : SerialRingBuffer) : rb.tail = (rb.head + rb.size) % 512 := by
  have hh := rb.head_lt
  have ht := rb.tail_lt
  simp only [size]
  omega

/-! ### Push -/

/-- A byte pushed is one more, where there is room. -/
theorem pushByte_size (rb : SerialRingBuffer) (b : Byte) (h : rb.size < 511) :
    (rb.pushByte b).size = rb.size + 1 := by
  have hh := rb.head_lt
  have ht := rb.tail_lt
  simp only [size, pushByte, mask_eq_mod] at h ⊢
  omega

/-- A byte pushed is the last of the queue, where there is room. -/
theorem pushByte_contents (rb : SerialRingBuffer) (b : Byte) (h : rb.size < 511) :
    (rb.pushByte b).contents = rb.contents ++ [b] := by
  have hset : (rb.pushByte b).buf =
      rb.buf.set ((rb.head + rb.size) % 512) b (Nat.mod_lt _ (by omega)) := by
    have hplace : rb.tail &&& 511 = (rb.head + rb.size) % 512 := by
      rw [mask_eq_mod, tail_eq, Nat.mod_mod]
    simp only [pushByte, hplace]
  rw [contents, contents, pushByte_size rb b h, hset]
  exact Circular.contents_set rb.buf rb.head b (by omega)

/-- A push that fits appends. -/
theorem foldl_pushByte_contents (rb : SerialRingBuffer) (src : List Byte)
    (h : rb.size + src.length ≤ 511) : (src.foldl pushByte rb).contents = rb.contents ++ src := by
  induction src generalizing rb with
  | nil => simp
  | cons b src ih =>
      simp only [List.length_cons] at h
      have hsize := rb.pushByte_size b (by omega)
      rw [List.foldl_cons, ih (rb.pushByte b) (by omega), pushByte_contents rb b (by omega)]
      simp

/-- The clamp is a minimum with the room left. -/
theorem clampLen_eq_min (rb : SerialRingBuffer) (len : ℕ) :
    rb.clampLen len = min len (511 - rb.size) := by
  have := rb.size_lt
  simp only [clampLen]
  split_ifs <;> omega

/-- **Push**: the bytes that fit are appended, and the rest of `src` is dropped. -/
theorem push_contents (rb : SerialRingBuffer) (src : List Byte) :
    (rb.push src).contents = rb.contents ++ src.take (rb.clampLen src.length) := by
  have hsize := rb.size_lt
  refine foldl_pushByte_contents rb _ ?_
  rw [List.length_take, clampLen_eq_min]
  omega

/-- A push that is not clamped appends all of `src`. -/
theorem push_contents_of_fits (rb : SerialRingBuffer) {src : List Byte}
    (h : rb.size + src.length ≤ 511) : (rb.push src).contents = rb.contents ++ src := by
  rw [push_contents, clampLen_eq_min, List.take_of_length_le (by omega)]

/-! ### Pop -/

/-- The test of `pop_frame` on the bytes of a window. -/
def isAtFrame (w : List Byte) : Bool :=
  w[0]? == some 0x41 && w[1]? == some 0x54 && w[w.length - 2]? == some 0x0D &&
    w[w.length - 1]? == some 0x0A

/-- A window that passes, in positions of the bytes. -/
theorem windowAt_isAtFrame {xs : List Byte} {frameLen i : ℕ} (hlen : 2 ≤ frameLen) :
    WindowAt frameLen isAtFrame xs i ↔ i + frameLen ≤ xs.length ∧ xs[i]? = some 0x41 ∧
      xs[i + 1]? = some 0x54 ∧ xs[i + frameLen - 2]? = some 0x0D ∧
        xs[i + frameLen - 1]? = some 0x0A := by
  refine and_congr_right fun hfits => ?_
  have hget : ∀ m < frameLen, ((xs.drop i).take frameLen)[m]? = xs[i + m]? := by
    intro m hm
    rw [List.getElem?_take_of_lt hm, List.getElem?_drop]
  have hlength : ((xs.drop i).take frameLen).length = frameLen := by
    rw [List.length_take, List.length_drop]
    omega
  simp only [isAtFrame, hlength, Bool.and_eq_true, beq_iff_eq, and_assoc]
  rw [hget 0 (by omega), hget 1 (by omega), hget (frameLen - 2) (by omega),
    hget (frameLen - 1) (by omega), Nat.add_sub_assoc hlen, Nat.add_sub_assoc (by omega)]
  rfl

/-- Moving the read index drops the oldest bytes. -/
theorem contents_advance (rb : SerialRingBuffer) {n : ℕ} (h : n ≤ rb.size) :
    (rb.advance n).contents = rb.contents.drop n := by
  have hsize : (rb.advance n).size = rb.size - n := by
    have hh := rb.head_lt
    have ht := rb.tail_lt
    simp only [size, advance, mask_eq_mod] at h ⊢
    omega
  rw [contents, contents, Circular.contents_drop, hsize]
  simp only [advance, mask_eq_mod]

/-- `peek` after the read index moved. -/
theorem peek_advance (rb : SerialRingBuffer) (n i : ℕ) :
    (rb.advance n).peek i = rb.peek (n + i) := by
  simp only [peek, advance, mask_eq_mod, Nat.mod_add_mod, Nat.add_assoc]

/-- The test of the loop is the test of the window at `start`. -/
theorem frameAt_iff (rb : SerialRingBuffer) {frameLen start : ℕ} (hlen : 2 ≤ frameLen)
    (hfit : start + frameLen ≤ rb.size) :
    rb.frameAt frameLen start = isAtFrame ((rb.contents.drop start).take frameLen) := by
  have hwindow : ∀ i < frameLen, ((rb.contents.drop start).take frameLen)[i]? =
      some (rb.peek (start + i)) := fun i hi => by
    rw [List.getElem?_take_of_lt hi, List.getElem?_drop, peek_eq rb (by omega)]
  have hlength : ((rb.contents.drop start).take frameLen).length = frameLen := by
    rw [List.length_take, List.length_drop, contents_length]
    omega
  simp only [isAtFrame, hlength]
  rw [hwindow 0 (by omega), hwindow 1 (by omega), hwindow _ (by omega : frameLen - 2 < frameLen),
    hwindow _ (by omega : frameLen - 1 < frameLen)]
  rw [← Nat.add_sub_assoc hlen, ← Nat.add_sub_assoc (by omega : 1 ≤ frameLen)]
  simp [frameAt]

/-- The start the loop finds is the first window's. -/
theorem findFrame_eq_some_iff (rb : SerialRingBuffer) {frameLen start : ℕ} (hlen : 2 ≤ frameLen) :
    rb.findFrame frameLen = some start ↔
      WindowAt frameLen isAtFrame rb.contents start ∧
        ∀ j < start, ¬ WindowAt frameLen isAtFrame rb.contents j := by
  have hat : ∀ j, j < rb.size + 1 - frameLen ∧ rb.frameAt frameLen j ↔
      WindowAt frameLen isAtFrame rb.contents j := fun j => by
    simp only [WindowAt, contents_length]
    refine ⟨fun h => ⟨by omega, ?_⟩, fun h => ⟨by omega, ?_⟩⟩
    · rw [← frameAt_iff rb hlen (by omega)]
      exact h.2
    · rw [frameAt_iff rb hlen (by omega)]
      exact h.2
  rw [findFrame, List.find?_range_eq_some]
  simp only [List.mem_range, ← hat, not_and, Bool.not_eq_true, Bool.not_eq_eq_eq_not, Bool.not_true]
  constructor
  · rintro ⟨htest, hlt, hmin⟩
    exact ⟨⟨hlt, htest⟩, fun j hj _ => hmin j hj⟩
  · rintro ⟨⟨hlt, htest⟩, hmin⟩
    exact ⟨htest, hlt, fun j hj => hmin j hj (hj.trans hlt)⟩

/-- The bytes copied out are the window's. -/
theorem ofFn_peek_advance (rb : SerialRingBuffer) {frameLen start : ℕ}
    (hfit : start + frameLen ≤ rb.size) :
    (Vector.ofFn fun i : Fin frameLen => (rb.advance start).peek i).toList =
      (rb.contents.drop start).take frameLen := by
  refine List.ext_getElem? fun i => ?_
  rcases Nat.lt_or_ge i frameLen with hi | hi
  · rw [List.getElem?_take_of_lt hi, List.getElem?_drop, peek_eq rb (by omega)]
    simp [hi, peek_advance]
  · rw [List.getElem?_eq_none (by simpa using hi), List.getElem?_eq_none (by simp; omega)]

/-- **Pop**: `pop_frame` takes the first window that passes its test, and all before it. -/
theorem popFrame_refines (rb : SerialRingBuffer) {frameLen : ℕ} (hlen : 2 ≤ frameLen) :
    (rb.popFrame frameLen).map (fun p => (p.1.toList, p.2.contents)) =
      firstWindow frameLen isAtFrame rb.contents := by
  cases hfw : firstWindow frameLen isAtFrame rb.contents with
  | none =>
      have hno := (firstWindow_eq_none_iff (by omega) rb.contents).mp hfw
      have hfind : rb.findFrame frameLen = none := by
        cases hf : rb.findFrame frameLen with
        | none => rfl
        | some start => exact absurd ((findFrame_eq_some_iff rb hlen).mp hf).1 (hno start)
      simp [popFrame, hfind]
  | some p =>
      obtain ⟨w, rest⟩ := p
      obtain ⟨start, hat, hmin, rfl, rfl⟩ := firstWindow_eq_some hfw
      have hfind := (findFrame_eq_some_iff rb hlen).mpr ⟨hat, hmin⟩
      have hfit : start + frameLen ≤ rb.size := by simpa using hat.1
      have hleft : ((rb.advance start).advance frameLen).contents =
          rb.contents.drop (start + frameLen) := by
        have hstart := contents_advance rb (by omega : start ≤ rb.size)
        rw [contents_advance, hstart, List.drop_drop]
        rw [← contents_length, hstart, List.length_drop, contents_length]
        omega
      rw [popFrame, if_neg (by omega), hfind]
      simp only [Option.map_some, ofFn_peek_advance rb hfit, hleft]

/-- A frame popped is `frameLen` bytes of the contents; what is left follows it. -/
theorem popFrame_eq_some {rb rb' : SerialRingBuffer} {frameLen : ℕ} {raw : Vector Byte frameLen}
    (hlen : 2 ≤ frameLen) (h : rb.popFrame frameLen = some (raw, rb')) :
    ∃ start, start + frameLen ≤ rb.size ∧ raw.toList = (rb.contents.drop start).take frameLen ∧
      rb'.contents = rb.contents.drop (start + frameLen) := by
  have hscan := rb.popFrame_refines hlen
  rw [h, Option.map_some] at hscan
  obtain ⟨start, hat, -, hraw, hrest⟩ := firstWindow_eq_some hscan.symm
  exact ⟨start, by simpa using hat.1, hraw, hrest⟩

end SerialRingBuffer

end Robstride
