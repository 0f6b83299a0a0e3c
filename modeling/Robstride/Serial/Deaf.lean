import Robstride.Serial.Framing

/-!
# Serial — Deafness

`push` drops the newest bytes of a full ring, and `pop_frame` discards bytes only when it finds
a frame.  A ring of more than 494 bytes without a frame in it has no room for a whole one, so
it can keep rejecting the terminator of every frame that arrives, for ever (`Deaf`).

`hears_iff` says which states are not like that: those with a frame in the ring, or with room
for one.
-/

namespace Robstride

open Support SerialTransport SerialRingBuffer

/-! ### Reachable states -/

namespace SerialTransport

/-- The states of a transport, after any calls and any answers of the system. -/
inductive Reachable : SerialTransport → Prop where
  | initial : Reachable .initial
  | connect {t : SerialTransport} (opened : Option ℕ) : Reachable t → Reachable (t.connect opened).2
  | receive {t : SerialTransport} (reads : List Chunk) : Reachable t → Reachable (t.receive reads).2
  | disconnect {t : SerialTransport} : Reachable t → Reachable t.disconnect

/-- At least 31 frames back to back, one call after each, give at least one `SUCCESS`. -/
def Hears (t : SerialTransport) : Prop :=
  ∀ (frames : List ExtFrame) (calls : List (List Chunk)), 31 ≤ frames.length →
    List.Forall₂ (fun reads f => bytesOf reads = (atFrame f.frame).toList) calls frames →
    ∃ frame, .ok frame ∈ (t.receiveAll calls).1

/-- No frame in the ring, and no room for one. -/
def Deaf (t : SerialTransport) : Prop :=
  (∀ i, ¬ WindowAt 17 isAtFrame t.ringBuf.contents i) ∧ 495 ≤ t.ringBuf.size

end SerialTransport

/-! ### What a call keeps -/

/-- A drain appends to the ring. -/
theorem contents_prefix_drain (rb : SerialRingBuffer) (reads : List Chunk) :
    rb.contents <+: (drain rb reads).contents := by
  induction reads generalizing rb with
  | nil => exact List.prefix_rfl
  | cons c reads ih =>
      refine List.IsPrefix.trans ?_ (ih (rb.push c.bytes))
      rw [rb.push_contents]
      exact List.prefix_append ..

/-- A call returns a frame when the drained ring holds one. -/
theorem receive_ok_of_windowAt {t : SerialTransport} {reads : List Chunk} {i : ℕ} (hfd : 0 ≤ t.fd)
    (h : WindowAt 17 isAtFrame (drain t.ringBuf reads).contents i) :
    ∃ frame, (t.receive reads).1 = .ok frame := by
  cases hfw : firstWindow 17 isAtFrame (drain t.ringBuf reads).contents with
  | none => exact absurd h ((firstWindow_eq_none_iff (by omega) _).mp hfw i)
  | some p =>
      obtain ⟨raw, ringBuf, -, -, hreceive⟩ := receive_of_window hfd hfw
      exact ⟨parseRaw raw, by rw [hreceive]⟩

/-! ### The frame a deaf ring never takes -/

/-- A frame whose first sixteen bytes hold no line feed. -/
def silentFrame : ExtFrame where
  frame := ⟨canEffFlag, 0, zeroPayload⟩
  eff := by decide
  plain := by decide
  dlc_le := by decide
  padded := by decide

/-- Its 17 bytes in one read. -/
def silentChunk : Chunk where
  bytes := (atFrame silentFrame.frame).toList
  pos := by simp
  le := by simp

theorem silent_no_lineFeed : ∀ i < 16, (atFrame silentFrame.frame).toList[i]? ≠ some 0x0A := by
  decide

/-- A first part of the silent frame opens no window. -/
theorem no_window_append_silent {q : List Byte} {k : ℕ} (hk : k ≤ 16)
    (hq : ∀ i, ¬ WindowAt 17 isAtFrame q i) (i : ℕ) :
    ¬ WindowAt 17 isAtFrame (q ++ (atFrame silentFrame.frame).toList.take k) i := by
  intro hat
  rcases Nat.lt_or_ge (i + 16) q.length with hin | hout
  · exact hq i ((windowAt_append (by omega)).mp hat)
  · have hfit := hat.1
    obtain ⟨-, -, -, hlf⟩ := windowAt_iff.mp hat
    simp only [List.length_append, List.length_take] at hfit
    rw [List.getElem?_append_right hout, List.getElem?_take_of_lt (by omega)] at hlf
    exact silent_no_lineFeed _ (by omega) hlf

/-- **A deaf receiver stays deaf** while silent frames arrive. -/
theorem receive_silent_of_deaf {t : SerialTransport} (hfd : 0 ≤ t.fd) (h : t.Deaf) :
    (t.receive [silentChunk]).1 = .error .errTimeout ∧ (t.receive [silentChunk]).2.Deaf := by
  obtain ⟨hno, hsize⟩ := h
  have hring : (drain t.ringBuf [silentChunk]).contents = t.ringBuf.contents ++
      (atFrame silentFrame.frame).toList.take (t.ringBuf.clampLen 17) :=
    t.ringBuf.push_contents silentChunk.bytes
  have hk : t.ringBuf.clampLen 17 ≤ 16 := by
    rw [clampLen_eq_min]
    omega
  have hno' : ∀ i, ¬ WindowAt 17 isAtFrame (drain t.ringBuf [silentChunk]).contents i := by
    rw [hring]
    exact no_window_append_silent hk hno
  rw [receive_of_no_window hfd ((firstWindow_eq_none_iff (by omega) _).mpr hno')]
  refine ⟨rfl, hno', ?_⟩
  rw [← contents_length, hring, List.length_append, contents_length]
  omega

theorem receiveAll_silent_of_deaf {t : SerialTransport} (hfd : 0 ≤ t.fd) (h : t.Deaf) (m : ℕ) :
    ∀ r ∈ (t.receiveAll (List.replicate m [silentChunk])).1, r = .error .errTimeout := by
  induction m generalizing t with
  | zero => simp
  | succ m ih =>
      obtain ⟨hresult, hdeaf⟩ := receive_silent_of_deaf hfd h
      rw [List.replicate_succ, receiveAll_cons, List.forall_mem_cons]
      exact ⟨hresult, ih (by rwa [receive_fd]) hdeaf⟩

theorem silent_calls (m : ℕ) :
    List.Forall₂ (fun reads f => bytesOf reads = (atFrame f.frame).toList)
      (List.replicate m [silentChunk]) (List.replicate m silentFrame) := by
  induction m with
  | zero => exact .nil
  | succ m ih => exact .cons (by simp [silentChunk]) ih

/-- A deaf receiver may never return a frame again. -/
theorem not_hears_of_deaf {t : SerialTransport} (hfd : 0 ≤ t.fd) (h : t.Deaf) : ¬ t.Hears := by
  intro hhears
  obtain ⟨frame, hmem⟩ := hhears (List.replicate 31 silentFrame) (List.replicate 31 [silentChunk])
    (by simp) (silent_calls 31)
  exact nomatch receiveAll_silent_of_deaf hfd h 31 _ hmem

/-! ### Who hears -/

/-- **Who hears**: a connected transport returns one of the next frames, whatever they are, if
and only if a frame is in its ring or the ring has room for a whole one. -/
theorem hears_iff (t : SerialTransport) (hfd : 0 ≤ t.fd) :
    t.Hears ↔ (∃ i, WindowAt 17 isAtFrame t.ringBuf.contents i) ∨ t.ringBuf.size ≤ 494 := by
  constructor
  · intro hhears
    by_contra hnot
    push Not at hnot
    exact not_hears_of_deaf hfd hnot hhears
  · intro h frames calls hlen hcalls
    cases hcalls with
    | nil => simp at hlen
    | @cons reads f calls frames hreads _ =>
        have hat : ∃ i, WindowAt 17 isAtFrame (drain t.ringBuf reads).contents i := by
          rcases h with ⟨i, hi⟩ | hroom
          · obtain ⟨more, hmore⟩ := contents_prefix_drain t.ringBuf reads
            rw [← hmore]
            exact ⟨i, (windowAt_append hi.1).mpr hi⟩
          · -- With room for a whole frame, the next one is read as it was sent.
            have hfits : Unclamped t.ringBuf reads := unclamped_of_fits (by
              rw [hreads, Vector.length_toList]
              omega)
            rw [drain_contents hfits, hreads]
            refine ⟨t.ringBuf.contents.length, by simp, ?_⟩
            rw [List.drop_left, List.take_of_length_le (by simp)]
            exact isAtFrame_atFrame _
        obtain ⟨i, hi⟩ := hat
        obtain ⟨frame, hframe⟩ := receive_ok_of_windowAt hfd hi
        exact ⟨frame, by simp [hframe]⟩

/-! ### A line of noise -/

/-- Noise without an `A` stays in the ring. -/
theorem noise_stays {t : SerialTransport} {reads : List Chunk} (hfd : 0 ≤ t.fd)
    (hempty : t.ringBuf.contents = []) (hfit : (bytesOf reads).length ≤ 511)
    (hnoise : ∀ b ∈ bytesOf reads, b ≠ 0x41) :
    (t.receive reads).2.ringBuf.contents = bytesOf reads ∧
      ∀ i, ¬ WindowAt 17 isAtFrame (t.receive reads).2.ringBuf.contents i := by
  have hsize : t.ringBuf.size = 0 := by rw [← contents_length, hempty, List.length_nil]
  have hfits : Unclamped t.ringBuf reads := unclamped_of_fits (by omega)
  have hring : (drain t.ringBuf reads).contents = bytesOf reads := by
    rw [drain_contents hfits, hempty, List.nil_append]
  have hno : ∀ i, ¬ WindowAt 17 isAtFrame (drain t.ringBuf reads).contents i := by
    intro i hat
    obtain ⟨hA, -⟩ := header_of_windowAt hat
    rw [hring] at hA
    exact hnoise _ (List.mem_of_getElem? hA) rfl
  rw [receive_of_no_window hfd ((firstWindow_eq_none_iff (by omega) _).mpr hno)]
  exact ⟨hring, hno⟩

/-- **Noise deafens**: a call that fills an empty ring with bytes none of which is `A` leaves a
deaf transport. -/
theorem deaf_of_noise {t : SerialTransport} {reads : List Chunk} (hfd : 0 ≤ t.fd)
    (hempty : t.ringBuf.contents = []) (hfull : 495 ≤ (bytesOf reads).length)
    (hfit : (bytesOf reads).length ≤ 511) (hnoise : ∀ b ∈ bytesOf reads, b ≠ 0x41) :
    (t.receive reads).2.Deaf := by
  obtain ⟨hring, hno⟩ := noise_stays hfd hempty hfit hnoise
  refine ⟨hno, ?_⟩
  rwa [← contents_length, hring]

instance neZero_sixtyFour : NeZero 64 := ⟨by decide⟩

/-- A read of zero bytes. -/
def zeroChunk (k : Fin 64) : Chunk where
  bytes := List.replicate (k + 1) 0
  pos := by simp
  le := by
    rw [List.length_replicate]
    exact k.isLt

theorem zeroChunks_ne (k : Fin 64) :
    ∀ b ∈ bytesOf (List.replicate 7 (zeroChunk 63) ++ [zeroChunk k]), b ≠ 0x41 := by
  rintro b hb rfl
  obtain ⟨c, hc, hb⟩ := List.mem_flatMap.mp hb
  rcases List.mem_append.mp hc with hc | hc
  · obtain rfl := List.eq_of_mem_replicate hc
    exact absurd (List.eq_of_mem_replicate hb) (by decide)
  · obtain rfl := List.mem_singleton.mp hc
    exact absurd (List.eq_of_mem_replicate hb) (by decide)

/-- 494 zero bytes: one more, and a frame has no room behind them. -/
def someReads : List Chunk := List.replicate 7 (zeroChunk 63) ++ [zeroChunk 45]

theorem hears_iff_noisy :
    ((SerialTransport.initial.connect (some 3)).2.receive someReads).2.Hears := by
  have hfd : 0 ≤ (SerialTransport.initial.connect (some 3)).2.fd := by decide
  have hlen : (bytesOf someReads).length = 494 := by decide +kernel
  have hfit : (bytesOf someReads).length ≤ 511 := by omega
  obtain ⟨hring, -⟩ := noise_stays hfd (contents_reset _) hfit (zeroChunks_ne 45)
  refine (hears_iff _ (by rwa [receive_fd])).mpr (Or.inr ?_)
  rw [← contents_length, hring, hlen]

/-- 511 zero bytes, in eight reads. -/
def noiseReads : List Chunk := List.replicate 7 (zeroChunk 63) ++ [zeroChunk 62]

theorem noiseReads_length : (bytesOf noiseReads).length = 511 := by
  decide +kernel

/-- Noise that fills the ring is never discarded. -/
theorem noise_deafens : ¬ ∀ t : SerialTransport, t.Reachable → 0 ≤ t.fd → t.Hears := by
  intro h
  let t := (SerialTransport.initial.connect (some 3)).2
  have hfd : 0 ≤ t.fd := by decide
  have hfd' : 0 ≤ (t.receive noiseReads).2.fd := by rwa [receive_fd]
  have hdeaf : (t.receive noiseReads).2.Deaf :=
    deaf_of_noise hfd (contents_reset _) (by rw [noiseReads_length]; omega) noiseReads_length.le
      (zeroChunks_ne 62)
  exact not_hears_of_deaf hfd' hdeaf
    (h _ (.receive noiseReads (.connect (some 3) .initial)) hfd')

end Robstride
