import Robstride.Serial.Deaf

/-!
# Serial — Positions of the stream

Where in the received stream each byte of the ring comes from.  `Tracked` runs the code's own
`push` and `popFrame` and records, beside the ring, the stream and the position in it of every
byte the ring holds (`origin`) and of every byte of the frames returned (`frames`).  The record
is right: the bytes are the stream's at those positions (`run_sound`).

The contents are a contiguous segment that ends with the last byte received, in every state of
a run, if and only if no push of the run is clamped (`contiguous_iff_neverClamped`): a clamped
push drops the newest bytes of the chunk, where the header says the oldest are dropped.
-/

namespace Robstride

open Support SerialTransport SerialRingBuffer

/-! ### The tracked ring -/

/-- An operation of `receive` on the ring: a turn of its loop, or the pop at its end. -/
inductive RingOp where
  | read (chunk : Chunk)
  | pop

/-- The ring with a record: every byte received, the positions in the stream of the bytes it
holds, and each frame popped with the positions of its own. -/
structure Tracked where
  ring : SerialRingBuffer
  stream : List Byte
  origin : List ℕ
  frames : List (Vector Byte 17 × List ℕ)

namespace Tracked

/-- Nothing received yet. -/
def start (ring : SerialRingBuffer) : Tracked where
  ring := ring
  stream := []
  origin := []
  frames := []

/-- The `clampLen` bytes pushed come from the end of the stream; the frame popped is the last 17
of the bytes consumed. -/
def step (s : Tracked) : RingOp → Tracked
  | .read chunk =>
      { ring := s.ring.push chunk.bytes
        stream := s.stream ++ chunk.bytes
        origin := s.origin ++ (List.range' s.stream.length chunk.bytes.length).take
          (s.ring.clampLen chunk.bytes.length)
        frames := s.frames }
  | .pop =>
      match s.ring.popFrame 17 with
      | none => s
      | some (raw, ring) =>
          let consumed := s.ring.size - ring.size
          { ring := ring
            stream := s.stream
            origin := s.origin.drop consumed
            frames := s.frames ++ [(raw, (s.origin.take consumed).drop (consumed - 17))] }

/-- Operations one after another. -/
def run (s : Tracked) (ops : List RingOp) : Tracked := ops.foldl step s

@[simp] theorem run_nil (s : Tracked) : s.run [] = s := rfl

@[simp] theorem run_cons (s : Tracked) (op : RingOp) (ops : List RingOp) :
    s.run (op :: ops) = (s.step op).run ops := rfl

theorem run_append (s : Tracked) (ops ops' : List RingOp) :
    s.run (ops ++ ops') = (s.run ops).run ops' := List.foldl_append ..

/-- A pop that finds nothing changes nothing; one that finds a frame takes it and all before. -/
theorem step_pop (s : Tracked) :
    s.step .pop = s ∨ ∃ (raw : Vector Byte 17) (ring : SerialRingBuffer) (n : ℕ),
      n + 17 ≤ s.ring.size ∧ raw.toList = (s.ring.contents.drop n).take 17 ∧
      ring.contents = s.ring.contents.drop (n + 17) ∧
      s.step .pop =
        { ring := ring, stream := s.stream, origin := s.origin.drop (n + 17)
          frames := s.frames ++ [(raw, (s.origin.drop n).take 17)] } := by
  cases hpop : s.ring.popFrame 17 with
  | none => exact .inl (by simp only [step, hpop])
  | some p =>
      obtain ⟨raw, ring⟩ := p
      obtain ⟨n, hn, hraw, hrest⟩ := popFrame_eq_some (by omega) hpop
      have hconsumed : s.ring.size - ring.size = n + 17 := by
        rw [← contents_length ring, hrest, List.length_drop, contents_length]
        omega
      refine .inr ⟨raw, ring, n, hn, hraw, hrest, ?_⟩
      simp only [step, hpop, hconsumed, Nat.add_sub_cancel, List.drop_take]
      rw [Nat.add_sub_cancel_left]

/-! ### The record is right -/

/-- The bytes of `bytes` are those of `stream` at the positions `origin`. -/
def ReadFrom (stream : List Byte) (bytes : List Byte) (origin : List ℕ) : Prop :=
  bytes.map some = origin.map (stream[·]?)

/-- The positions are those of the bytes, in the ring and in each frame popped. -/
structure Sound (s : Tracked) : Prop where
  contents : ReadFrom s.stream s.ring.contents s.origin
  frames : ∀ p ∈ s.frames, ReadFrom s.stream p.1.toList p.2

theorem ReadFrom.take {stream bytes : List Byte} {origin : List ℕ}
    (h : ReadFrom stream bytes origin) (n : ℕ) :
    ReadFrom stream (bytes.take n) (origin.take n) := by
  rw [ReadFrom, List.map_take, h, List.map_take]

theorem ReadFrom.drop {stream bytes : List Byte} {origin : List ℕ}
    (h : ReadFrom stream bytes origin) (n : ℕ) :
    ReadFrom stream (bytes.drop n) (origin.drop n) := by
  rw [ReadFrom, List.map_drop, h, List.map_drop]

/-- Positions below the stream's length stay right as the stream grows. -/
theorem ReadFrom.grow {stream bytes : List Byte} {origin : List ℕ}
    (h : ReadFrom stream bytes origin) (more : List Byte) :
    ReadFrom (stream ++ more) bytes origin := by
  rw [ReadFrom, h]
  refine List.map_congr_left fun i hi => ?_
  have hsome : stream[i]? ∈ bytes.map some := by
    rw [h]
    exact List.mem_map_of_mem hi
  obtain ⟨b, -, hb⟩ := List.mem_map.mp hsome
  have hlt : i < stream.length := (List.getElem?_eq_some_iff.mp hb.symm).1
  rw [List.getElem?_append_left hlt]

theorem ReadFrom.append {stream bytes bytes' : List Byte} {origin origin' : List ℕ}
    (h : ReadFrom stream bytes origin) (h' : ReadFrom stream bytes' origin') :
    ReadFrom stream (bytes ++ bytes') (origin ++ origin') := by
  rw [ReadFrom, List.map_append, List.map_append, h, h']

theorem ReadFrom.length_eq {stream bytes : List Byte} {origin : List ℕ}
    (h : ReadFrom stream bytes origin) : bytes.length = origin.length := by
  simpa using congrArg List.length h

/-- The end of the stream is what was appended. -/
theorem readFrom_append (stream more : List Byte) :
    ReadFrom (stream ++ more) more (List.range' stream.length more.length) := by
  refine List.ext_getElem (by simp) fun i h₁ h₂ => ?_
  simp only [List.getElem_map, List.getElem_range', Nat.one_mul]
  rw [List.getElem?_append_right (by omega), Nat.add_sub_cancel_left]
  exact (List.getElem?_eq_getElem _).symm

theorem step_sound {s : Tracked} (h : s.Sound) (op : RingOp) : (s.step op).Sound := by
  cases op with
  | read chunk =>
      refine ⟨?_, fun p hp => (h.frames p hp).grow _⟩
      change ReadFrom _ (s.ring.push chunk.bytes).contents _
      rw [push_contents]
      exact (h.contents.grow _).append ((readFrom_append _ _).take _)
  | pop =>
      rcases s.step_pop with hnone | ⟨raw, ring, n, -, hraw, hrest, hstep⟩
      · rwa [hnone]
      · rw [hstep]
        refine ⟨?_, fun p hp => ?_⟩
        · change ReadFrom _ ring.contents _
          rw [hrest]
          exact h.contents.drop _
        · rcases List.mem_append.mp hp with hp | hp
          · exact h.frames p hp
          · obtain rfl := List.mem_singleton.mp hp
            change ReadFrom _ raw.toList _
            rw [hraw]
            exact (h.contents.drop n).take 17

theorem start_sound {ring : SerialRingBuffer} (hempty : ring.contents = []) :
    (start ring).Sound := by
  refine ⟨?_, by simp [start]⟩
  change ReadFrom _ ring.contents _
  rw [hempty]
  rfl

/-- **The record is right** in every state of a run. -/
theorem run_sound {s : Tracked} (h : s.Sound) (ops : List RingOp) : (s.run ops).Sound := by
  induction ops generalizing s with
  | nil => exact h
  | cons op ops ih => exact ih (step_sound h op)

/-! ### Contiguity -/

/-- The contents are a contiguous segment of the stream that ends with its last byte. -/
def Contiguous (s : Tracked) : Prop :=
  s.origin.length ≤ s.stream.length ∧
    s.origin = List.range' (s.stream.length - s.origin.length) s.origin.length

/-- Seventeen consecutive positions. -/
def Consecutive (origin : List ℕ) : Prop := ∃ p, origin = List.range' p 17

/-- No frame returned joins bytes that were apart. -/
def FramesConsecutive (s : Tracked) : Prop := ∀ p ∈ s.frames, Consecutive p.2

/-- The push of the operation is not clamped. -/
def Fits (s : Tracked) : RingOp → Prop
  | .read chunk => s.ring.clampLen chunk.bytes.length = chunk.bytes.length
  | .pop => True

/-- **A read keeps the contents contiguous** exactly when its push is not clamped. -/
theorem contiguous_read_iff {s : Tracked} (hs : s.Sound) (hc : s.Contiguous) (chunk : Chunk) :
    (s.step (.read chunk)).Contiguous ↔ s.Fits (.read chunk) := by
  obtain ⟨hle, horigin⟩ := hc
  have hsize := hs.contents.length_eq
  have hpos := chunk.pos
  rw [contents_length] at hsize
  have hk := s.ring.clampLen_eq_min chunk.bytes.length
  generalize hclamp : s.ring.clampLen chunk.bytes.length = k at hk
  have horigin' : (s.step (.read chunk)).origin =
      List.range' (s.stream.length - s.origin.length) (s.origin.length + k) := by
    change s.origin ++ (List.range' s.stream.length _).take _ = _
    rw [hclamp, List.take_range'_of_length_ge (by omega), ← List.range'_append_1, ← horigin]
    rw [Nat.sub_add_cancel hle]
  have hstream : (s.step (.read chunk)).stream.length = s.stream.length + chunk.bytes.length :=
    List.length_append
  simp only [Contiguous, Fits, horigin', hstream, List.length_range', List.range'_inj, hclamp,
    true_and]
  omega

theorem contiguous_pop {s : Tracked} (hc : s.Contiguous) : (s.step .pop).Contiguous := by
  obtain ⟨hle, horigin⟩ := hc
  rcases s.step_pop with hnone | ⟨raw, ring, n, hn, -, -, hstep⟩
  · rw [hnone]
    exact ⟨hle, horigin⟩
  · rw [hstep]
    refine ⟨?_, ?_⟩
    · simp only [List.length_drop]
      omega
    · simp only [List.length_drop]
      rw [horigin, List.drop_range', List.length_range', List.range'_inj]
      omega

theorem framesConsecutive_step {s : Tracked} (hs : s.Sound) (hc : s.Contiguous)
    (hf : s.FramesConsecutive) (op : RingOp) : (s.step op).FramesConsecutive := by
  cases op with
  | read chunk => exact hf
  | pop =>
      rcases s.step_pop with hnone | ⟨raw, ring, n, hn, -, -, hstep⟩
      · rwa [hnone]
      · rw [hstep]
        have hsize := hs.contents.length_eq
        rw [contents_length] at hsize
        intro p hp
        rcases List.mem_append.mp hp with hp | hp
        · exact hf p hp
        · obtain rfl := List.mem_singleton.mp hp
          refine ⟨s.stream.length - s.origin.length + n, ?_⟩
          change (s.origin.drop n).take 17 = _
          rw [hc.2, List.drop_range', List.take_range'_of_length_ge (by omega), List.length_range',
            Nat.mul_one]

/-! ### Whole runs -/

/-- No push of the operations is clamped. -/
def AllFit : Tracked → List RingOp → Prop
  | _, [] => True
  | s, op :: ops => s.Fits op ∧ AllFit (s.step op) ops

theorem forall_prefix_cons {P : Tracked → Prop} {s : Tracked} {op : RingOp} {ops : List RingOp} :
    (∀ ops', ops' <+: op :: ops → P (s.run ops')) ↔
      P s ∧ ∀ ops', ops' <+: ops → P ((s.step op).run ops') := by
  refine ⟨fun h => ⟨h [] List.nil_prefix, fun ops' h' => ?_⟩, fun h ops' h' => ?_⟩
  · exact h (op :: ops') (List.cons_prefix_cons.mpr ⟨rfl, h'⟩)
  · cases ops' with
    | nil => exact h.1
    | cons op' ops' =>
        obtain ⟨rfl, htail⟩ := List.cons_prefix_cons.mp h'
        exact h.2 ops' htail

/-- **The contents are contiguous in every state** exactly when no push is clamped. -/
theorem always_contiguous_iff {s : Tracked} (hs : s.Sound) (hc : s.Contiguous)
    (ops : List RingOp) :
    (∀ ops', ops' <+: ops → (s.run ops').Contiguous) ↔ s.AllFit ops := by
  induction ops generalizing s with
  | nil =>
      refine ⟨fun _ => trivial, fun _ ops' h => ?_⟩
      rwa [List.prefix_nil.mp h]
  | cons op ops ih =>
      rw [forall_prefix_cons, and_iff_right hc]
      cases op with
      | read chunk =>
          refine ⟨fun h => ?_, fun h => ?_⟩
          · have hc' : (s.step (.read chunk)).Contiguous := h [] List.nil_prefix
            exact ⟨(contiguous_read_iff hs hc chunk).mp hc', (ih (step_sound hs _) hc').mp h⟩
          · have hc' := (contiguous_read_iff hs hc chunk).mpr h.1
            exact (ih (step_sound hs _) hc').mpr h.2
      | pop =>
          exact (ih (step_sound hs _) (contiguous_pop hc)).trans
            ⟨fun h => ⟨trivial, h⟩, fun h => h.2⟩

/-- Contents that are always contiguous give frames of consecutive bytes. -/
theorem framesConsecutive_run {s : Tracked} (hs : s.Sound) (hf : s.FramesConsecutive)
    {ops : List RingOp} (h : ∀ ops', ops' <+: ops → (s.run ops').Contiguous) :
    (s.run ops).FramesConsecutive := by
  induction ops generalizing s with
  | nil => exact hf
  | cons op ops ih =>
      obtain ⟨hc, hops⟩ := forall_prefix_cons.mp h
      exact ih (step_sound hs op) (framesConsecutive_step hs hc hf op) hops

end Tracked

/-! ### Runs of `receive` -/

open Tracked

/-- The operations of successive calls of `receive`. -/
def operations (calls : List (List Chunk)) : List RingOp :=
  calls.flatMap fun reads => reads.map .read ++ [.pop]

theorem operations_cons (reads : List Chunk) (calls : List (List Chunk)) :
    operations (reads :: calls) = reads.map .read ++ .pop :: operations calls := by
  simp [operations]

theorem run_reads_ring (s : Tracked) (reads : List Chunk) :
    (s.run (reads.map .read)).ring = drain s.ring reads ∧
      (s.run (reads.map .read)).frames = s.frames := by
  induction reads generalizing s with
  | nil => exact ⟨rfl, rfl⟩
  | cons c reads ih => exact ih (s.step (.read c))

/-- One call of `receive` is its operations. -/
theorem run_call {t : SerialTransport} {s : Tracked} (hfd : 0 ≤ t.fd) (hring : s.ring = t.ringBuf)
    (reads : List Chunk) :
    ((s.run (reads.map .read)).step .pop).ring = (t.receive reads).2.ringBuf ∧
      ((s.run (reads.map .read)).step .pop).frames.map (fun p => parseRaw p.1) =
        s.frames.map (fun p => parseRaw p.1) ++ delivered [(t.receive reads).1] := by
  obtain ⟨hdrain, hframes⟩ := run_reads_ring s reads
  rw [hring] at hdrain
  rw [← hframes]
  simp only [step, hdrain, receive, if_neg (not_lt.mpr hfd)]
  cases (drain t.ringBuf reads).popFrame 17 with
  | none => exact ⟨hdrain, (List.append_nil _).symm⟩
  | some p => exact ⟨rfl, by simp⟩

/-- **The tracked run is the code's**: it leaves the ring of the calls, and its frames are those
the calls return. -/
theorem run_operations {t : SerialTransport} {s : Tracked} (hfd : 0 ≤ t.fd)
    (hring : s.ring = t.ringBuf) (calls : List (List Chunk)) :
    (s.run (operations calls)).ring = (t.receiveAll calls).2.ringBuf ∧
      (s.run (operations calls)).frames.map (fun p => parseRaw p.1) =
        s.frames.map (fun p => parseRaw p.1) ++ delivered (t.receiveAll calls).1 := by
  induction calls generalizing t s with
  | nil => exact ⟨hring, by simp [operations]⟩
  | cons reads calls ih =>
      have hfd' : 0 ≤ (t.receive reads).2.fd := by rwa [receive_fd]
      obtain ⟨hring', hframes⟩ := run_call hfd hring reads
      obtain ⟨hlast, hall⟩ := ih hfd' hring'
      rw [operations_cons, run_append, run_cons, receiveAll_cons]
      refine ⟨hlast, ?_⟩
      rw [hall, hframes, List.append_assoc, ← delivered_append, List.singleton_append]

theorem allFit_reads_iff (s : Tracked) (reads : List Chunk) (ops : List RingOp) :
    s.AllFit (reads.map .read ++ ops) ↔
      Unclamped s.ring reads ∧ (s.run (reads.map .read)).AllFit ops := by
  induction reads generalizing s with
  | nil => exact ⟨fun h => ⟨trivial, h⟩, fun h => h.2⟩
  | cons c reads ih =>
      rw [List.map_cons, List.cons_append, AllFit, ih, Unclamped, run_cons, and_assoc]
      rfl

theorem allFit_operations_iff {t : SerialTransport} {s : Tracked} (hfd : 0 ≤ t.fd)
    (hring : s.ring = t.ringBuf) (calls : List (List Chunk)) :
    s.AllFit (operations calls) ↔ t.NeverClamped calls := by
  induction calls generalizing t s with
  | nil => exact Iff.rfl
  | cons reads calls ih =>
      have hfd' : 0 ≤ (t.receive reads).2.fd := by rwa [receive_fd]
      rw [operations_cons, allFit_reads_iff, hring, NeverClamped]
      refine and_congr_right fun _ => ?_
      rw [AllFit, ih hfd' (run_call hfd hring reads).1]
      exact and_iff_right trivial

/-- **Contiguity**: in a run from an empty ring, the contents are in every state a contiguous
segment of the stream ending with its last byte, and every frame returned is seventeen
consecutive bytes of it, if and only if no push of the run is clamped. -/
theorem contiguous_iff_neverClamped (t : SerialTransport) (calls : List (List Chunk))
    (hfd : 0 ≤ t.fd) (hempty : t.ringBuf.contents = []) :
    ((∀ ops, ops <+: operations calls → ((start t.ringBuf).run ops).Contiguous) ∧
        ((start t.ringBuf).run (operations calls)).FramesConsecutive) ↔
      t.NeverClamped calls := by
  have hs := start_sound hempty
  have hc : (start t.ringBuf).Contiguous := ⟨Nat.le_refl _, rfl⟩
  have hf : (start t.ringBuf).FramesConsecutive := by simp [FramesConsecutive, start]
  rw [← allFit_operations_iff (s := start t.ringBuf) hfd rfl, ← always_contiguous_iff hs hc]
  exact and_iff_left_of_imp fun h => framesConsecutive_run hs hf h

theorem contiguous_iff_neverClamped_noise :
    let t := (SerialTransport.initial.connect (some 3)).2
    ((∀ ops, ops <+: operations [noiseReads] → ((start t.ringBuf).run ops).Contiguous) ∧
        ((start t.ringBuf).run (operations [noiseReads])).FramesConsecutive) ↔
      t.NeverClamped [noiseReads] :=
  contiguous_iff_neverClamped _ [noiseReads] (by decide) (contents_reset _)

/-- A drain of more than the ring holds is clamped. -/
theorem not_unclamped_of_overflow {rb : SerialRingBuffer} {reads : List Chunk}
    (h : 511 < rb.size + (bytesOf reads).length) : ¬ Unclamped rb reads := by
  intro hfits
  have hlen := congrArg List.length (drain_contents hfits)
  have hlt := (drain rb reads).size_lt
  rw [List.length_append, contents_length, contents_length] at hlen
  omega

/-- Zero bytes until eight more fit, then a frame of id 1 and the first eight bytes of a frame
of id 2 in one read: the ring takes the head of the first frame and, once a frame before them
is popped, goes on with the tail of the second. -/
def overflowCalls : List (List Chunk) :=
  let first : CanFrame := ⟨canEffFlag ||| 1, 8, Vector.replicate 8 0x11⟩
  let second : CanFrame := ⟨canEffFlag ||| 2, 8, Vector.replicate 8 0x22⟩
  let before : Chunk := ⟨(atFrame second).toList ++ List.replicate 47 0, by simp, by simp⟩
  let across : Chunk := ⟨(atFrame first).toList ++ (atFrame second).toList.take 8, by simp, by simp⟩
  let tail : Chunk := ⟨(atFrame second).toList.drop 8, by simp, by simp⟩
  [before :: (List.replicate 6 (zeroChunk 63) ++ [zeroChunk 54, across]), [tail]]

theorem overflow_not_contiguous : ¬ ∀ (t : SerialTransport) (calls : List (List Chunk)),
    0 ≤ t.fd → t.ringBuf.contents = [] →
      (∀ ops, ops <+: operations calls → ((start t.ringBuf).run ops).Contiguous) ∧
        ((start t.ringBuf).run (operations calls)).FramesConsecutive := by
  intro h
  let t := (SerialTransport.initial.connect (some 3)).2
  have hfd : 0 ≤ t.fd := by decide
  have hempty : t.ringBuf.contents = [] := contents_reset _
  have hc : (start t.ringBuf).Contiguous := ⟨Nat.le_refl _, rfl⟩
  have hfit := (always_contiguous_iff (start_sound hempty) hc _).mp (h t overflowCalls hfd hempty).1
  refine not_unclamped_of_overflow ?_ ((allFit_operations_iff (t := t) hfd rfl _).mp hfit).1
  decide +kernel

end Robstride
