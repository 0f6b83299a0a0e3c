import Robstride.Sdk.Ring

/-!
# Sdk — Serial transport

`SerialTransport` of `robstride_transport.cpp`, as functions of its state, with the answers of
the operating system as arguments: the descriptor `connect` opened, the byte count of `write`,
the chunks `read` returned before the loop of `receive` ended.
-/

namespace Robstride

open Support

/-- The bytes one `read` into `tmp[64]` returned. -/
structure Chunk where
  bytes : List Byte
  pos : 0 < bytes.length
  le : bytes.length ≤ 64

/-- The descriptor and the bytes received. -/
structure SerialTransport where
  fd : ℤ
  ringBuf : SerialRingBuffer

namespace SerialTransport

/-- The transport as constructed. -/
def initial : SerialTransport where
  fd := -1
  ringBuf := .initial

/-- `opened` is the descriptor set up, `none` when `open`, `tcgetattr` or `tcsetattr` failed. -/
def connect (t : SerialTransport) (opened : Option ℕ) : Result × SerialTransport :=
  if 0 ≤ t.fd then (.success, t)
  else
    match opened with
    | none => (.errTransport, t)
    | some s => (.success, { fd := s, ringBuf := t.ringBuf.reset })

/-- The descriptor is closed and the buffer emptied. -/
def disconnect (t : SerialTransport) : SerialTransport where
  fd := -1
  ringBuf := t.ringBuf.reset

/-- Serial is connected while its descriptor is not negative. -/
def isConnected (t : SerialTransport) : Bool := 0 ≤ t.fd

/-! ### Transmit -/

/-- The fixed 17-byte AT-frame. -/
def atFrame (frame : CanFrame) : Vector Byte 17 :=
  let canId := frame.canId &&& canEffMask
  let atId := (canId <<< 3) ||| 0x04
  let data : Payload :=
    Vector.ofFn fun i => if i.val < frame.canDlc.toNat then frame.data.byte i else 0
  #v[0x41, 0x54,
    (atId >>> 24).setWidth 8, (atId >>> 16).setWidth 8, (atId >>> 8).setWidth 8, atId.setWidth 8,
    frame.canDlc,
    data.byte 0, data.byte 1, data.byte 2, data.byte 3,
    data.byte 4, data.byte 5, data.byte 6, data.byte 7,
    0x0D, 0x0A]

/-- The result and the bytes that reached the line, `nbytes` being what `write` returned;
`none` where the `memcpy` reads past `frame.data`. -/
def transmit (t : SerialTransport) (frame : CanFrame) (nbytes : ℤ) :
    Option (Result × List Byte) :=
  if t.fd < 0 then some (.errDisconnected, [])
  else if frame.canId &&& canEffFlag = 0 then some (.errProtocolMismatch, [])
  else if 8 < frame.canDlc.toNat then none
  else
    some (if nbytes = 17 then .success else .errWriteFailed,
      (atFrame frame).toList.take nbytes.toNat)

/-! ### Receive -/

/-- The loop of `receive`: every chunk read is pushed. -/
def drain (rb : SerialRingBuffer) (reads : List Chunk) : SerialRingBuffer :=
  reads.foldl (fun rb chunk => rb.push chunk.bytes) rb

/-- The frame behind 17 raw bytes. -/
def parseRaw (raw : Vector Byte 17) : CanFrame :=
  let atId := (raw[2].setWidth 32 <<< 24) ||| (raw[3].setWidth 32 <<< 16) |||
    (raw[4].setWidth 32 <<< 8) ||| raw[5].setWidth 32
  { canId := (atId >>> 3) ||| canEffFlag
    canDlc := raw[6]
    data := Vector.ofFn fun i => raw[7 + i.val] }

/-- `.ok frame` where the code returns `SUCCESS`. -/
def receive (t : SerialTransport) (reads : List Chunk) :
    Except Result CanFrame × SerialTransport :=
  if t.fd < 0 then (.error .errDisconnected, t)
  else
    let ringBuf := drain t.ringBuf reads
    match ringBuf.popFrame 17 with
    | none => (.error .errTimeout, { t with ringBuf })
    | some (raw, ringBuf) => (.ok (parseRaw raw), { t with ringBuf })

/-! ### Receive on the queue -/

/-- The bytes of a list of reads. -/
def bytesOf (reads : List Chunk) : List Byte := reads.flatMap Chunk.bytes

/-- No reads, no bytes. -/
@[simp] theorem bytesOf_nil : bytesOf [] = [] := rfl

/-- The first read's bytes come first. -/
@[simp] theorem bytesOf_cons (c : Chunk) (reads : List Chunk) :
    bytesOf (c :: reads) = c.bytes ++ bytesOf reads := rfl

/-- No push of the drain is clamped. -/
def Unclamped : SerialRingBuffer → List Chunk → Prop
  | _, [] => True
  | rb, c :: reads =>
      rb.clampLen c.bytes.length = c.bytes.length ∧ Unclamped (rb.push c.bytes) reads

/-- Without a clamped push the drain appends every byte read. -/
theorem drain_contents {rb : SerialRingBuffer} {reads : List Chunk} (h : Unclamped rb reads) :
    (drain rb reads).contents = rb.contents ++ bytesOf reads := by
  induction reads generalizing rb with
  | nil => simp [drain]
  | cons c reads ih =>
      obtain ⟨hc, hreads⟩ := h
      have hpush : (rb.push c.bytes).contents = rb.contents ++ c.bytes := by
        rw [rb.push_contents, hc, List.take_length]
      calc (drain rb (c :: reads)).contents = (drain (rb.push c.bytes) reads).contents := rfl
        _ = (rb.push c.bytes).contents ++ bytesOf reads := ih hreads
        _ = rb.contents ++ bytesOf (c :: reads) := by rw [hpush]; simp

/-- A drain that fits has no clamped push. -/
theorem unclamped_of_fits {rb : SerialRingBuffer} {reads : List Chunk}
    (h : rb.size + (bytesOf reads).length ≤ 511) : Unclamped rb reads := by
  induction reads generalizing rb with
  | nil => trivial
  | cons c reads ih =>
      rw [bytesOf_cons, List.length_append] at h
      have hc : rb.clampLen c.bytes.length = c.bytes.length := by
        rw [rb.clampLen_eq_min]
        omega
      refine ⟨hc, ih ?_⟩
      rw [← SerialRingBuffer.contents_length, rb.push_contents_of_fits (by omega)]
      simp only [List.length_append, SerialRingBuffer.contents_length]
      omega

/-- A call that finds no window keeps every byte. -/
theorem receive_of_no_window {t : SerialTransport} {reads : List Chunk} (hfd : 0 ≤ t.fd)
    (h : firstWindow 17 SerialRingBuffer.isAtFrame (drain t.ringBuf reads).contents = none) :
    t.receive reads = (.error .errTimeout, { t with ringBuf := drain t.ringBuf reads }) := by
  have hpop : (drain t.ringBuf reads).popFrame 17 = none := by
    rw [← SerialRingBuffer.popFrame_refines _ (by omega), Option.map_eq_none_iff] at h
    exact h
  simp only [receive, if_neg (not_lt.mpr hfd), hpop]

/-- A call that finds a window returns its frame, and keeps the bytes after it. -/
theorem receive_of_window {t : SerialTransport} {reads : List Chunk} {w rest : List Byte}
    (hfd : 0 ≤ t.fd)
    (h : firstWindow 17 SerialRingBuffer.isAtFrame (drain t.ringBuf reads).contents =
      some (w, rest)) :
    ∃ raw ringBuf, raw.toList = w ∧ ringBuf.contents = rest ∧
      t.receive reads = (.ok (parseRaw raw), { t with ringBuf }) := by
  rw [← SerialRingBuffer.popFrame_refines _ (by omega), Option.map_eq_some_iff] at h
  obtain ⟨⟨raw, ringBuf⟩, hpop, heq⟩ := h
  obtain ⟨hraw, hrest⟩ := Prod.mk.inj heq
  refine ⟨raw, ringBuf, hraw, hrest, ?_⟩
  simp only [receive, if_neg (not_lt.mpr hfd), hpop]

end SerialTransport

end Robstride
