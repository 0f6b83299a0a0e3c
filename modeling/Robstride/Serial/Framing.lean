import Mathlib.Tactic.IntervalCases
import Robstride.Sdk.Serial

/-!
# Serial — Framing

What was sent is what `receive` returns.  The wire carries gaps and the encodings of extended
frames (`wire`); a gap is noise without the header `AT`.

The invariant is that the ring and the bytes not yet read spell the wire of the frames not yet
returned (`receive_on_wire`).  A gap opens no window and a frame's encoding is one
(`firstWindow_wire`), whatever its payload holds, because the scan takes the first window and
the first window starts at the frame's own header.  Bytes that arrive later do not change what
the scan found (`firstWindow_append`), so neither the split into reads nor the schedule matters.
-/

namespace Robstride

open Support SerialTransport SerialRingBuffer

/-! ### Frames and gaps -/

/-- An extended data frame, its payload zero past its length. -/
structure ExtFrame where
  frame : CanFrame
  eff : frame.canId &&& canEffFlag ≠ 0
  plain : frame.canId &&& 0x60000000 = 0
  dlc_le : frame.canDlc.toNat ≤ 8
  padded : ∀ i : Fin 8, frame.canDlc.toNat ≤ i → frame.data.byte i = 0

/-- Noise without the bytes of `AT` side by side. -/
structure Gap where
  bytes : List Byte
  noHeader : ∀ i : ℕ, bytes[i]? = some 0x41 → bytes[i + 1]? ≠ some 0x54

/-- Gaps and frames in turn, and a gap after the last frame. -/
def wire (items : List (Gap × ExtFrame)) (last : Gap) : List Byte :=
  items.flatMap (fun p => p.1.bytes ++ (atFrame p.2.frame).toList) ++ last.bytes

@[simp] theorem wire_nil (last : Gap) : wire [] last = last.bytes := rfl

theorem wire_cons (g : Gap) (f : ExtFrame) (items : List (Gap × ExtFrame)) (last : Gap) :
    wire ((g, f) :: items) last = g.bytes ++ (atFrame f.frame).toList ++ wire items last := by
  simp [wire]

/-- The frames of a stream of gaps and frames. -/
def framesOf (items : List (Gap × ExtFrame)) : List CanFrame := items.map (·.2.frame)

/-- `transmit` writes the encoding. -/
theorem transmit_ext {t : SerialTransport} (hfd : 0 ≤ t.fd) (f : ExtFrame) :
    t.transmit f.frame 17 = some (.success, (atFrame f.frame).toList) := by
  have hdlc := f.dlc_le
  rw [SerialTransport.transmit, if_neg (not_lt.mpr hfd), if_neg f.eff, if_neg (by omega), if_pos rfl]
  rw [List.take_of_length_le (by simp)]

/-! ### Decoding an encoding -/

/-- The id field carries 29 bits, and the receiver sets the flag of an extended frame. -/
theorem parse_masked (x : BitVec 32) :
    ((((x &&& canEffMask) <<< 3) ||| 0x04) >>> 3) ||| canEffFlag =
      (x &&& canEffMask) ||| canEffFlag := by
  refine BitVec.eq_of_getLsbD_eq fun i hi => ?_
  unfold canEffFlag canEffMask
  interval_cases i <;> simp

/-- Where the two flags that are dropped are clear and the one that is put is set. -/
theorem masked_canId {canId : BitVec 32} (heff : canId &&& canEffFlag ≠ 0)
    (hplain : canId &&& 0x60000000 = 0) : (canId &&& canEffMask) ||| canEffFlag = canId := by
  have h29 : canId[29] = false := by
    simpa using congrArg (·.getLsbD 29) hplain
  have h30 : canId[30] = false := by
    simpa using congrArg (·.getLsbD 30) hplain
  have h31 : canId[31] = true := by
    by_contra hclear
    refine heff (BitVec.eq_of_getLsbD_eq fun i hi => ?_)
    unfold canEffFlag
    interval_cases i <;> simp_all
  refine BitVec.eq_of_getLsbD_eq fun i hi => ?_
  unfold canEffFlag canEffMask
  interval_cases i <;> simp [h29, h30, h31]

/-- Four bytes joined again. -/
theorem join_bytes (x : BitVec 32) :
    (((x >>> 24).setWidth 8).setWidth 32 <<< 24) ||| (((x >>> 16).setWidth 8).setWidth 32 <<< 16) |||
      (((x >>> 8).setWidth 8).setWidth 32 <<< 8) ||| (x.setWidth 8).setWidth 32 = x := by
  refine BitVec.eq_of_getLsbD_eq fun i hi => ?_
  interval_cases i <;> simp

/-- What the receiver reads of the encoding of any frame. -/
theorem parseRaw_encoded (frame : CanFrame) : parseRaw (atFrame frame) =
    { canId := (frame.canId &&& canEffMask) ||| canEffFlag
      canDlc := frame.canDlc
      data := Vector.ofFn fun i =>
        if i.val < frame.canDlc.toNat then frame.data.byte i else 0 } := by
  have hid := (congrArg (fun x : BitVec 32 => (x >>> 3) ||| canEffFlag) (join_bytes
    (((frame.canId &&& canEffMask) <<< 3) ||| 0x04))).trans (parse_masked _)
  have hdata : (Vector.ofFn fun i : Fin 8 => (atFrame frame)[7 + i.val]) =
      Vector.ofFn fun i => if i.val < frame.canDlc.toNat then frame.data.byte i else 0 := by
    refine Vector.ext fun i hi => ?_
    interval_cases i <;> simp [atFrame, Payload.byte]
  exact CanFrame.mk.injEq .. |>.mpr ⟨hid, rfl, hdata⟩

/-- **Decoding an encoding** gives an extended data frame back. -/
theorem parseRaw_atFrame (f : ExtFrame) : parseRaw (atFrame f.frame) = f.frame := by
  have hdata : (Vector.ofFn fun i : Fin 8 =>
      if i.val < f.frame.canDlc.toNat then f.frame.data.byte i else 0) = f.frame.data := by
    refine Vector.ext fun i hi => ?_
    rw [Vector.getElem_ofFn]
    split_ifs with hlt
    · rfl
    · exact (f.padded ⟨i, hi⟩ (Nat.le_of_not_lt hlt)).symm
  rw [parseRaw_encoded]
  exact CanFrame.mk.injEq .. |>.mpr ⟨masked_canId f.eff f.plain, rfl, hdata⟩

/-! ### Windows on the wire -/

theorem isAtFrame_atFrame (frame : CanFrame) : isAtFrame (atFrame frame).toList := by
  simp [isAtFrame, atFrame]

theorem isAtFrame_iff {w : List Byte} (hw : w.length = 17) : isAtFrame w ↔
    w[0]? = some 0x41 ∧ w[1]? = some 0x54 ∧ w[15]? = some 0x0D ∧ w[16]? = some 0x0A := by
  simp only [isAtFrame, hw, Bool.and_eq_true, beq_iff_eq, and_assoc]

/-- A word in positions of the stream. -/
theorem windowAt_iff {xs : List Byte} {i : ℕ} : WindowAt 17 isAtFrame xs i ↔
    xs[i]? = some 0x41 ∧ xs[i + 1]? = some 0x54 ∧ xs[i + 15]? = some 0x0D ∧
      xs[i + 16]? = some 0x0A := by
  rw [windowAt_isAtFrame (by omega)]
  refine and_iff_right_of_imp fun h => ?_
  obtain ⟨hlt, -⟩ := List.getElem?_eq_some_iff.mp h.2.2.2
  omega

/-- A window starts with the header. -/
theorem header_of_windowAt {xs : List Byte} {i : ℕ} (h : WindowAt 17 isAtFrame xs i) :
    xs[i]? = some 0x41 ∧ xs[i + 1]? = some 0x54 := by
  obtain ⟨hA, hT, -, -⟩ := windowAt_iff.mp h
  exact ⟨hA, hT⟩

/-- **The scan on the wire** finds the next frame's encoding, and leaves the wire after it. -/
theorem firstWindow_wire_cons (g : Gap) (f : ExtFrame) (items : List (Gap × ExtFrame))
    (last : Gap) : firstWindow 17 isAtFrame (wire ((g, f) :: items) last) =
      some ((atFrame f.frame).toList, wire items last) := by
  rw [wire_cons]
  refine firstWindow_skip (by omega) (fun i hi hat => ?_) (by simp) (isAtFrame_atFrame _)
  obtain ⟨hA, hT⟩ := header_of_windowAt hat
  rw [List.append_assoc] at hA hT
  rw [List.getElem?_append_left hi] at hA
  rcases Nat.lt_or_ge (i + 1) g.bytes.length with hlt | hge
  · rw [List.getElem?_append_left hlt] at hT
    exact g.noHeader i hA hT
  · rw [List.getElem?_append_right hge, show i + 1 - g.bytes.length = 0 by omega] at hT
    simp [atFrame] at hT

theorem firstWindow_gap (g : Gap) : firstWindow 17 isAtFrame g.bytes = none := by
  rw [firstWindow_eq_none_iff (by omega)]
  intro i hat
  obtain ⟨hA, hT⟩ := header_of_windowAt hat
  exact g.noHeader i hA hT

/-! ### Runs of `receive` -/

namespace SerialTransport

/-- The results of successive calls, each with the chunks it read, and the state left. -/
def receiveAll (t : SerialTransport) :
    List (List Chunk) → List (Except Result CanFrame) × SerialTransport
  | [] => ([], t)
  | reads :: calls =>
      let (result, t) := t.receive reads
      let (results, t) := receiveAll t calls
      (result :: results, t)

/-- No push of the run is clamped. -/
def NeverClamped : SerialTransport → List (List Chunk) → Prop
  | _, [] => True
  | t, reads :: calls => Unclamped t.ringBuf reads ∧ NeverClamped (t.receive reads).2 calls

/-- The frames returned with `SUCCESS`. -/
def delivered (results : List (Except Result CanFrame)) : List CanFrame :=
  results.filterMap Except.toOption

@[simp] theorem delivered_nil : delivered [] = [] := rfl

@[simp] theorem delivered_error (e : Result) (results : List (Except Result CanFrame)) :
    delivered (.error e :: results) = delivered results := rfl

@[simp] theorem delivered_ok (frame : CanFrame) (results : List (Except Result CanFrame)) :
    delivered (.ok frame :: results) = frame :: delivered results := rfl

theorem delivered_append (results results' : List (Except Result CanFrame)) :
    delivered (results ++ results') = delivered results ++ delivered results' :=
  List.filterMap_append ..

@[simp] theorem receiveAll_nil (t : SerialTransport) : t.receiveAll [] = ([], t) := rfl

@[simp] theorem receiveAll_cons (t : SerialTransport) (reads : List Chunk)
    (calls : List (List Chunk)) : t.receiveAll (reads :: calls) =
      ((t.receive reads).1 :: ((t.receive reads).2.receiveAll calls).1,
        ((t.receive reads).2.receiveAll calls).2) := rfl

end SerialTransport

/-- **One call on the wire**: it returns nothing, or the next frame, and the ring and the bytes
not yet read still spell the wire of the frames not returned. -/
theorem receive_on_wire {t : SerialTransport} {reads : List Chunk} {unread : List Byte}
    {items : List (Gap × ExtFrame)} {last : Gap} (hfd : 0 ≤ t.fd)
    (hclamp : Unclamped t.ringBuf reads)
    (hwire : t.ringBuf.contents ++ (bytesOf reads ++ unread) = wire items last) :
    ((t.receive reads).1 = .error .errTimeout ∧
      (t.receive reads).2.ringBuf.contents ++ unread = wire items last ∧
      (unread = [] → items = [])) ∨
    ∃ g f items', items = (g, f) :: items' ∧ (t.receive reads).1 = .ok f.frame ∧
      (t.receive reads).2.ringBuf.contents ++ unread = wire items' last := by
  have hring : (drain t.ringBuf reads).contents ++ unread = wire items last := by
    rw [drain_contents hclamp, List.append_assoc, hwire]
  cases hfw : firstWindow 17 isAtFrame (drain t.ringBuf reads).contents with
  | none =>
      rw [receive_of_no_window hfd hfw]
      refine .inl ⟨rfl, hring, ?_⟩
      rintro rfl
      cases items with
      | nil => rfl
      | cons p items =>
          rw [List.append_nil] at hring
          rw [hring, firstWindow_wire_cons] at hfw
          cases hfw
  | some p =>
      obtain ⟨w, rest⟩ := p
      obtain ⟨raw, ringBuf, hraw, hrest, hreceive⟩ := receive_of_window hfd hfw
      -- A window found in the ring is the first of the whole wire, so it is the next frame.
      have hscan := firstWindow_append (by omega) unread hfw
      rw [hring] at hscan
      rw [hreceive]
      cases items with
      | nil =>
          rw [wire_nil, firstWindow_gap] at hscan
          cases hscan
      | cons p items =>
          obtain ⟨g, f⟩ := p
          rw [firstWindow_wire_cons] at hscan
          obtain ⟨hw, hrest'⟩ := Prod.mk.inj (Option.some.inj hscan)
          have hraw' : raw = atFrame f.frame := Vector.toList_inj.mp (hraw.trans hw.symm)
          refine .inr ⟨g, f, items, rfl, ?_, ?_⟩
          · rw [hraw', parseRaw_atFrame]
          · rw [hrest, hrest']

theorem receive_fd {t : SerialTransport} (reads : List Chunk) : (t.receive reads).2.fd = t.fd := by
  rw [receive]
  split_ifs
  · rfl
  · dsimp only
    cases (drain t.ringBuf reads).popFrame 17 <;> rfl

/-- A run whose bytes all fit has no clamped push. -/
theorem neverClamped_of_fits {t : SerialTransport} {calls : List (List Chunk)} (hfd : 0 ≤ t.fd)
    (h : t.ringBuf.size + (calls.flatMap bytesOf).length ≤ 511) : t.NeverClamped calls := by
  induction calls generalizing t with
  | nil => trivial
  | cons reads calls ih =>
      rw [List.flatMap_cons, List.length_append] at h
      have hnow : Unclamped t.ringBuf reads := unclamped_of_fits (by omega)
      have hdrain : (drain t.ringBuf reads).size = t.ringBuf.size + (bytesOf reads).length := by
        rw [← contents_length, drain_contents hnow, List.length_append, contents_length]
      have hsize : (t.receive reads).2.ringBuf.size ≤ (drain t.ringBuf reads).size := by
        cases hfw : firstWindow 17 isAtFrame (drain t.ringBuf reads).contents with
        | none => rw [receive_of_no_window hfd hfw]
        | some p =>
            obtain ⟨raw, ringBuf, -, hrest, hreceive⟩ := receive_of_window hfd hfw
            obtain ⟨i, -, -, -, hdrop⟩ := firstWindow_eq_some hfw
            rw [hreceive, ← contents_length, hrest, hdrop, List.length_drop, contents_length]
            omega
      exact ⟨hnow, ih (by rwa [receive_fd]) (by omega)⟩

/-- **A run on the wire** returns a first part of the frames, in order. -/
theorem receiveAll_on_wire {t : SerialTransport} {calls : List (List Chunk)} {unread : List Byte}
    {items : List (Gap × ExtFrame)} {last : Gap} (hfd : 0 ≤ t.fd) (hclamp : t.NeverClamped calls)
    (hwire : t.ringBuf.contents ++ (calls.flatMap bytesOf ++ unread) = wire items last) :
    ∃ done rest, items = done ++ rest ∧ delivered (t.receiveAll calls).1 = framesOf done ∧
      (t.receiveAll calls).2.ringBuf.contents ++ unread = wire rest last ∧
      0 ≤ (t.receiveAll calls).2.fd := by
  induction calls generalizing t items with
  | nil => exact ⟨[], items, rfl, rfl, by simpa using hwire, hfd⟩
  | cons reads calls ih =>
      obtain ⟨hnow, hlater⟩ := hclamp
      have hfd' : 0 ≤ (t.receive reads).2.fd := by rwa [receive_fd]
      rw [List.flatMap_cons, List.append_assoc] at hwire
      rcases receive_on_wire hfd hnow hwire with
        ⟨hresult, hwire', -⟩ | ⟨g, f, items', rfl, hresult, hwire'⟩
      · obtain ⟨done, rest, hsplit, hdone, hrest⟩ := ih hfd' hlater hwire'
        refine ⟨done, rest, hsplit, ?_, hrest⟩
        simpa [hresult] using hdone
      · obtain ⟨done, rest, rfl, hdone, hrest⟩ := ih hfd' hlater hwire'
        refine ⟨(g, f) :: done, rest, rfl, ?_, hrest⟩
        simpa [hresult, framesOf] using hdone

/-- **Once all bytes are read**, each further call returns the next frame, then none. -/
theorem receiveAll_drained {t : SerialTransport} {items : List (Gap × ExtFrame)} {last : Gap}
    (hfd : 0 ≤ t.fd) (hwire : t.ringBuf.contents = wire items last) (m : ℕ) :
    (t.receiveAll (List.replicate m [])).1 =
      ((framesOf items).take m).map .ok ++
        List.replicate (m - items.length) (.error .errTimeout) := by
  induction m generalizing t items with
  | zero => simp
  | succ m ih =>
      have hfd' : 0 ≤ (t.receive []).2.fd := by rwa [receive_fd]
      have hone := @receive_on_wire t [] [] items last hfd trivial (by simpa using hwire)
      rw [List.append_nil] at hone
      rw [List.replicate_succ, receiveAll_cons]
      rcases hone with ⟨hresult, hwire', hnone⟩ | ⟨g, f, items', rfl, hresult, hwire'⟩
      · obtain rfl := hnone rfl
        rw [hresult, ih hfd' hwire']
        simp [framesOf, List.replicate_succ]
      · rw [hresult, ih hfd' hwire']
        simp [framesOf]

/-- **Framing**: the frames returned are a first part of the frames sent, in order, and once all
bytes are read further calls return exactly the rest. -/
theorem serial_delivers_sent (t : SerialTransport) (items : List (Gap × ExtFrame)) (last : Gap)
    (calls : List (List Chunk)) (hfd : 0 ≤ t.fd) (hempty : t.ringBuf.contents = [])
    (hread : calls.flatMap bytesOf <+: wire items last) (hclamp : t.NeverClamped calls) :
    delivered (t.receiveAll calls).1 <+: framesOf items ∧
      (calls.flatMap bytesOf = wire items last → ∀ m,
        let rest := (framesOf items).drop (delivered (t.receiveAll calls).1).length
        ((t.receiveAll calls).2.receiveAll (List.replicate m [])).1 =
          (rest.take m).map .ok ++ List.replicate (m - rest.length) (.error .errTimeout)) := by
  obtain ⟨unread, hunread⟩ := hread
  obtain ⟨done, rest, rfl, hdone, hring, hfd'⟩ :=
    receiveAll_on_wire hfd hclamp (by rw [hempty, List.nil_append, hunread])
  refine ⟨?_, fun hall m => ?_⟩
  · rw [hdone]
    exact ⟨framesOf rest, by simp [framesOf]⟩
  · obtain rfl : unread = [] := by simpa [hall] using hunread
    have hlater := receiveAll_drained hfd' (by simpa using hring) m
    have hrest : (framesOf (done ++ rest)).drop (framesOf done).length = framesOf rest := by
      simp [framesOf]
    dsimp only
    rw [hdone, hrest, hlater]
    simp [framesOf]

theorem noHeader_nil (i : ℕ) :
    ([] : List Byte)[i]? = some 0x41 → ([] : List Byte)[i + 1]? ≠ some 0x54 := by
  simp

theorem noHeader_single (b : Byte) (i : ℕ) : [b][i]? = some 0x41 → [b][i + 1]? ≠ some 0x54 := by
  simp

/-- A stray `A`, then a frame whose payload is `AT` and a terminator, read in two parts. -/
theorem serial_delivers_sent_split :
    let f : ExtFrame := ⟨⟨0x83FD0105, 4, #v[0x41, 0x54, 0x0D, 0x0A, 0, 0, 0, 0]⟩, by decide,
      by decide, by decide, by decide⟩
    let items : List (Gap × ExtFrame) := [(⟨[0x41], noHeader_single 0x41⟩, f)]
    let t := (SerialTransport.initial.connect (some 3)).2
    let calls : List (List Chunk) :=
      [[⟨(wire items ⟨[], noHeader_nil⟩).take 12, by decide, by decide⟩],
        [⟨(wire items ⟨[], noHeader_nil⟩).drop 12, by decide, by decide⟩]]
    delivered (t.receiveAll calls).1 <+: framesOf items := by
  intro f items t calls
  have hfd : 0 ≤ t.fd := by decide
  have hempty : t.ringBuf.contents = [] := contents_reset _
  have hread : calls.flatMap bytesOf = wire items ⟨[], noHeader_nil⟩ := by decide
  refine (serial_delivers_sent t items ⟨[], noHeader_nil⟩ calls hfd hempty (by rw [hread]) ?_).1
  refine neverClamped_of_fits hfd ?_
  rw [hread, ← contents_length, hempty]
  decide

end Robstride
