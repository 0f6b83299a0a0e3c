import Robstride.Serial.Framing
import Robstride.Support.Scan

/-!
# Serial — The receiver as a scanner

What `receive` returns, over all its calls, is the scan of the whole stream (`yields_iff`): neither
the split into reads nor the schedule of the calls matters, as long as no push is clamped.
-/

namespace Robstride

open Support SerialTransport SerialRingBuffer

/-- The frame behind a word given as a list. -/
def parseWord (w : List Byte) : CanFrame := parseRaw (Vector.ofFn fun i => w.getD i 0)

theorem parseWord_toList (raw : Vector Byte 17) : parseWord raw.toList = parseRaw raw := by
  refine congrArg parseRaw (Vector.ext fun i hi => ?_)
  rw [Vector.getElem_ofFn, List.getD_eq_getElem?_getD,
    List.getElem?_eq_getElem (by simpa using hi), Option.getD_some]
  rfl

/-- The frames behind the words of a stream. -/
def scanned (stream : List Byte) : List CanFrame := (scan 17 isAtFrame stream).map parseWord

/-- **One call**: it returns nothing, or the frame of the first word, and the ring and the bytes
not yet read spell the rest of the stream. -/
theorem receive_scan {t : SerialTransport} {reads : List Chunk} {unread stream : List Byte}
    (hfd : 0 ≤ t.fd) (hclamp : Unclamped t.ringBuf reads)
    (hstream : t.ringBuf.contents ++ (bytesOf reads ++ unread) = stream) :
    ((t.receive reads).1 = .error .errTimeout ∧
      (t.receive reads).2.ringBuf.contents ++ unread = stream ∧
      (unread = [] → scanned stream = [])) ∨
    ∃ frame rest, scanned stream = frame :: scanned rest ∧ (t.receive reads).1 = .ok frame ∧
      (t.receive reads).2.ringBuf.contents ++ unread = rest := by
  have hring : (drain t.ringBuf reads).contents ++ unread = stream := by
    rw [drain_contents hclamp, List.append_assoc, hstream]
  cases hfw : firstWindow 17 isAtFrame (drain t.ringBuf reads).contents with
  | none =>
      rw [receive_of_no_window hfd hfw]
      refine .inl ⟨rfl, hring, ?_⟩
      rintro rfl
      rw [List.append_nil] at hring
      rw [← hring, scanned, scan_of_none hfw, List.map_nil]
  | some p =>
      obtain ⟨w, rest⟩ := p
      obtain ⟨raw, ringBuf, hraw, hrest, hreceive⟩ := receive_of_window hfd hfw
      -- A window found in the ring is the first of the whole stream.
      have hscan := firstWindow_append (by omega) unread hfw
      rw [hring] at hscan
      rw [hreceive]
      refine .inr ⟨parseRaw raw, rest ++ unread, ?_, rfl, by rw [hrest]⟩
      rw [scanned, scan_of_some (by omega) hscan, List.map_cons, ← hraw, parseWord_toList]
      rfl

/-- **A run** returns a first part of the frames, and leaves the others to be scanned. -/
theorem receiveAll_scan {t : SerialTransport} {calls : List (List Chunk)}
    {unread stream : List Byte} (hfd : 0 ≤ t.fd) (hclamp : t.NeverClamped calls)
    (hstream : t.ringBuf.contents ++ (calls.flatMap bytesOf ++ unread) = stream) :
    scanned stream = delivered (t.receiveAll calls).1 ++
        scanned ((t.receiveAll calls).2.ringBuf.contents ++ unread) ∧
      0 ≤ (t.receiveAll calls).2.fd := by
  induction calls generalizing t stream with
  | nil => exact ⟨by rw [← hstream]; rfl, hfd⟩
  | cons reads calls ih =>
      obtain ⟨hnow, hlater⟩ := hclamp
      have hfd' : 0 ≤ (t.receive reads).2.fd := by rwa [receive_fd]
      rw [List.flatMap_cons, List.append_assoc] at hstream
      rcases receive_scan hfd hnow hstream with
        ⟨hresult, hring, -⟩ | ⟨frame, rest, hscan, hresult, hring⟩
      · obtain ⟨hrun, hopen⟩ := ih hfd' hlater hring
        refine ⟨?_, hopen⟩
        rw [receiveAll_cons, hresult, delivered_error, hrun]
      · obtain ⟨hrun, hopen⟩ := ih hfd' hlater hring
        refine ⟨?_, hopen⟩
        rw [receiveAll_cons, hresult, delivered_ok, hscan, hrun, List.cons_append]

/-- Calls that read nothing return the frames of the ring, one each. -/
theorem delivered_idle {t : SerialTransport} (hfd : 0 ≤ t.fd) (m : ℕ) :
    delivered (t.receiveAll (List.replicate m [])).1 = (scanned t.ringBuf.contents).take m := by
  induction m generalizing t with
  | zero => rfl
  | succ m ih =>
      have hfd' : 0 ≤ (t.receive []).2.fd := by rwa [receive_fd]
      have hone : t.ringBuf.contents ++ (bytesOf [] ++ []) = t.ringBuf.contents := by simp
      have hnow : Unclamped t.ringBuf [] := trivial
      rw [List.replicate_succ, receiveAll_cons]
      rcases receive_scan hfd hnow hone with
        ⟨hresult, hring, hnone⟩ | ⟨frame, rest, hscan, hresult, hring⟩
      · rw [List.append_nil] at hring
        rw [hresult, delivered_error, ih hfd', hring, hnone rfl, List.take_nil, List.take_nil]
      · rw [List.append_nil] at hring
        rw [hresult, delivered_ok, ih hfd', hring, hscan, List.take_succ_cons]

theorem receiveAll_append (t : SerialTransport) (calls calls' : List (List Chunk)) :
    t.receiveAll (calls ++ calls') =
      ((t.receiveAll calls).1 ++ ((t.receiveAll calls).2.receiveAll calls').1,
        ((t.receiveAll calls).2.receiveAll calls').2) := by
  induction calls generalizing t with
  | nil => rfl
  | cons reads calls ih => rw [List.cons_append, receiveAll_cons, receiveAll_cons, ih]; rfl

/-- The calls, and enough further ones that read nothing, return exactly these frames in order. -/
def SerialTransport.Yields (t : SerialTransport) (calls : List (List Chunk))
    (frames : List CanFrame) : Prop :=
  ∀ m, frames.length ≤ m →
    delivered (t.receiveAll (calls ++ List.replicate m [])).1 = frames

/-- **The receiver scans**: what it yields is the scan of the bytes read. -/
theorem yields_iff {t : SerialTransport} {calls : List (List Chunk)} {frames : List CanFrame}
    (hfd : 0 ≤ t.fd) (hempty : t.ringBuf.contents = []) (hclamp : t.NeverClamped calls) :
    t.Yields calls frames ↔ scanned (calls.flatMap bytesOf) = frames := by
  have hstream : t.ringBuf.contents ++ (calls.flatMap bytesOf ++ []) = calls.flatMap bytesOf := by
    rw [hempty, List.nil_append, List.append_nil]
  obtain ⟨hrun, hfd'⟩ := receiveAll_scan hfd hclamp hstream
  rw [List.append_nil] at hrun
  have hall : ∀ m, delivered (t.receiveAll (calls ++ List.replicate m [])).1 =
      delivered (t.receiveAll calls).1 ++
        (scanned (t.receiveAll calls).2.ringBuf.contents).take m := by
    intro m
    rw [receiveAll_append, delivered_append, delivered_idle hfd']
  rw [hrun]
  constructor
  · intro h
    -- So many further calls that all frames of the ring are returned.
    have hmax := h (max frames.length (scanned (t.receiveAll calls).2.ringBuf.contents).length)
      (le_max_left _ _)
    rwa [hall, List.take_of_length_le (le_max_right _ _)] at hmax
  · rintro rfl m hm
    rw [List.length_append] at hm
    rw [hall, List.take_of_length_le (by omega)]

/-! ### Frames that transmit takes -/

/-- A frame that `transmit` takes: extended, with a CAN length. -/
structure Sendable where
  frame : CanFrame
  eff : frame.canId &&& canEffFlag ≠ 0
  dlc_le : frame.canDlc.toNat ≤ 8

/-- The frame as the line carries it: without the remote and error flags, and without what the
payload holds past its length. -/
def Sendable.carried (f : Sendable) : CanFrame where
  canId := (f.frame.canId &&& canEffMask) ||| canEffFlag
  canDlc := f.frame.canDlc
  data := Vector.ofFn fun i => if i.val < f.frame.canDlc.toNat then f.frame.data.byte i else 0

/-- The 17 bytes of the frame. -/
def Sendable.encoding (f : Sendable) : List Byte := (atFrame f.frame).toList

namespace Sendable

/-- **What is carried** is what the receiver reads back. -/
theorem parse_encoding (f : Sendable) : parseWord f.encoding = f.carried := by
  rw [encoding, parseWord_toList]
  exact parseRaw_encoded f.frame

@[simp] theorem encoding_length (f : Sendable) : f.encoding.length = 17 := by simp [encoding]

theorem isAtFrame_encoding (f : Sendable) : isAtFrame f.encoding := isAtFrame_atFrame f.frame

end Sendable

/-- An extended data frame with no junk in it is carried as it is. -/
def ExtFrame.sendable (f : ExtFrame) : Sendable := ⟨f.frame, f.eff, f.dlc_le⟩

theorem ExtFrame.carried_eq (f : ExtFrame) : f.sendable.carried = f.frame := by
  rw [← f.sendable.parse_encoding, Sendable.encoding, parseWord_toList]
  exact parseRaw_atFrame f

/-- The scan of frames back to back. -/
theorem scanned_encodings (fs : List Sendable) :
    scanned (fs.flatMap Sendable.encoding) = fs.map Sendable.carried := by
  induction fs with
  | nil => rfl
  | cons f fs ih =>
      rw [List.flatMap_cons, scanned, scan_window (by omega) f.encoding_length f.isAtFrame_encoding,
        List.map_cons, f.parse_encoding]
      exact congrArg (f.carried :: ·) ih

end Robstride
