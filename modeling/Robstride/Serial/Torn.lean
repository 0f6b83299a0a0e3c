import Robstride.Serial.Scanning

/-!
# Serial — Torn writes

`transmit` makes one `write`.  A short count leaves the first bytes of the frame on the line and
returns `ERR_WRITE_FAILED`; nothing completes them, and the next frame follows them.

The peer returns the frames transmitted with `SUCCESS`, and takes no byte of a failed transmit,
exactly when no word from `AT` to a terminator begins in the bytes that a failed transmit left
(`torn_tolerated_iff`).
-/

namespace Robstride

open Support SerialTransport SerialRingBuffer

/-! ### The line -/

/-- A call of `transmit`, and what its `write` returns: 17, a shorter count, or a negative number
for an error. -/
structure Transmission where
  sent : Sendable
  nbytes : ℤ
  le : nbytes ≤ 17

namespace Transmission

/-- The call on an open transport. -/
def call (sender : SerialTransport) (x : Transmission) : Option (Result × List Byte) :=
  sender.transmit x.sent.frame x.nbytes

/-- The call returned `SUCCESS`. -/
def succeeded (sender : SerialTransport) (x : Transmission) : Bool :=
  (x.call sender).map Prod.fst = some .success

/-- The bytes that reached the line. -/
def bytes (sender : SerialTransport) (x : Transmission) : List Byte :=
  ((x.call sender).map Prod.snd).getD []

end Transmission

/-- The bytes on the line, each with whether its transmit returned `SUCCESS`. -/
def labelled (sender : SerialTransport) (xs : List Transmission) : List (Byte × Bool) :=
  xs.flatMap fun x => (x.bytes sender).map fun b => (b, x.succeeded sender)

/-- The bytes on the line. -/
def lineOf (sender : SerialTransport) (xs : List Transmission) : List Byte :=
  (labelled sender xs).map Prod.fst

/-- The frames whose transmit returned `SUCCESS`. -/
def successes (sender : SerialTransport) (xs : List Transmission) : List CanFrame :=
  (xs.filter (Transmission.succeeded sender)).map fun x => x.sent.carried

/-- The words the peer takes, with the labels of their bytes. -/
def labelledWords (sender : SerialTransport) (xs : List Transmission) : List (List (Byte × Bool)) :=
  scan 17 (fun w => isAtFrame (w.map Prod.fst)) (labelled sender xs)

/-- The peer returns the frames transmitted with `SUCCESS`, in order, however it reads the line,
and no word it takes has a byte of a failed transmit. -/
structure Tolerates (sender : SerialTransport) (xs : List Transmission) : Prop where
  yields : ∀ (t : SerialTransport) (calls : List (List Chunk)), 0 ≤ t.fd →
    t.ringBuf.contents = [] → t.NeverClamped calls → calls.flatMap bytesOf = lineOf sender xs →
      t.Yields calls (successes sender xs)
  untouched : ∀ w ∈ labelledWords sender xs, ∀ b ∈ w, b.2 = true

/-! ### What the writes leave -/

namespace Transmission

/-- `write` took the whole word. -/
def whole (x : Transmission) : Bool := x.nbytes = 17

/-- The bytes of the frame that its write took. -/
def taken (x : Transmission) : List Byte := x.sent.encoding.take x.nbytes.toNat

end Transmission

/-- The bytes the writes took, each with whether its write was whole. -/
def written (xs : List Transmission) : List (Byte × Bool) :=
  xs.flatMap fun x => x.taken.map fun b => (b, x.whole)

/-- The bytes on the line, without their labels. -/
def stream (xs : List Transmission) : List Byte := (written xs).map Prod.fst

/-- No word from `AT` to a terminator begins in the bytes of a short write. -/
def NoTornWord (xs : List Transmission) : Prop :=
  ∀ i b, WindowAt 17 isAtFrame (stream xs) i → (written xs)[i]? = some b → b.2 = true

section

variable {sender : SerialTransport}

theorem call_eq (hfd : 0 ≤ sender.fd) (x : Transmission) : x.call sender =
    some (if x.nbytes = 17 then .success else .errWriteFailed, x.taken) := by
  have hdlc := x.sent.dlc_le
  rw [Transmission.call, SerialTransport.transmit, if_neg (not_lt.mpr hfd), if_neg x.sent.eff,
    if_neg (by omega)]
  rfl

/-- `transmit` succeeds with its whole frame written, and fails otherwise. -/
theorem succeeded_eq (hfd : 0 ≤ sender.fd) : Transmission.succeeded sender =
    Transmission.whole := by
  funext x
  rw [Transmission.succeeded, Transmission.whole, call_eq hfd x]
  by_cases h : x.nbytes = 17
  · simp [h]
  · simp [h]

theorem labelled_eq (hfd : 0 ≤ sender.fd) (xs : List Transmission) :
    labelled sender xs = written xs := by
  refine congrArg (fun f => xs.flatMap f) (funext fun x => ?_)
  rw [succeeded_eq hfd, Transmission.bytes, call_eq hfd x]
  rfl

end

/-! ### One transmit -/

/-- The words the peer takes from them. -/
def words (xs : List Transmission) : List (List (Byte × Bool)) :=
  scan 17 (fun w => isAtFrame (w.map Prod.fst)) (written xs)

theorem Transmission.taken_of_whole {x : Transmission} (h : x.whole = true) :
    x.taken = x.sent.encoding := by
  rw [Transmission.taken, of_decide_eq_true h]
  exact List.take_of_length_le (by rw [x.sent.encoding_length]; rfl)

theorem written_cons (x : Transmission) (xs : List Transmission) :
    written (x :: xs) = (x.taken.map fun b => (b, x.whole)) ++ written xs := rfl

theorem stream_cons (x : Transmission) (xs : List Transmission) :
    stream (x :: xs) = x.taken ++ stream xs := by
  rw [stream, written_cons, List.map_append, map_fst_label]
  rfl

/-- What the peer takes, without the labels, is the scan of the line. -/
theorem scan_stream (xs : List Transmission) :
    scan 17 isAtFrame (stream xs) = (words xs).map (List.map Prod.fst) :=
  scan_map (by omega) Prod.fst _

/-- A whole frame is taken as it is. -/
theorem words_whole {x : Transmission} {xs : List Transmission} (hwhole : x.whole = true) :
    words (x :: xs) = (x.sent.encoding.map fun b => (b, true)) :: words xs := by
  rw [words, written_cons, hwhole, Transmission.taken_of_whole hwhole]
  exact scan_labelled (by omega) x.sent.encoding_length x.sent.isAtFrame_encoding true (written xs)

/-- Bytes that open no word are passed over. -/
theorem words_skip {x : Transmission} {xs : List Transmission}
    (h : ∀ i < x.taken.length, ¬ WindowAt 17 isAtFrame (stream (x :: xs)) i) :
    words (x :: xs) = words xs := by
  rw [words, written_cons]
  refine scan_skip (by omega) fun i hi hat => h i (by rwa [List.length_map] at hi) ?_
  rw [← written_cons, windowAt_map] at hat
  exact hat

/-- A word behind the first transmit. -/
theorem windowAt_stream_cons (x : Transmission) (xs : List Transmission) (i : ℕ) :
    WindowAt 17 isAtFrame (stream (x :: xs)) (x.taken.length + i) ↔
      WindowAt 17 isAtFrame (stream xs) i := by
  rw [stream_cons, windowAt_append_right]

theorem written_getElem?_cons (x : Transmission) (xs : List Transmission) (i : ℕ) :
    (written (x :: xs))[x.taken.length + i]? = (written xs)[i]? := by
  rw [written_cons, List.getElem?_append_right (by rw [List.length_map]; omega), List.length_map,
    Nat.add_sub_cancel_left]

/-- The labels of a transmit's own bytes. -/
theorem written_own {x : Transmission} {xs : List Transmission} {i : ℕ} {b : Byte × Bool}
    (hi : i < x.taken.length) (hb : (written (x :: xs))[i]? = some b) :
    b.2 = x.whole := by
  rw [written_cons, List.getElem?_append_left (by rwa [List.length_map]), List.getElem?_map,
    Option.map_eq_some_iff] at hb
  obtain ⟨c, -, rfl⟩ := hb
  rfl

/-- What holds of the line holds of what follows the first transmit. -/
theorem NoTornWord.tail {x : Transmission} {xs : List Transmission}
    (h : NoTornWord (x :: xs)) : NoTornWord xs := by
  intro i b hat hb
  refine h (x.taken.length + i) b ?_ ?_
  · rwa [windowAt_stream_cons]
  · rwa [written_getElem?_cons]

/-- A failed transmit that opens no word. -/
theorem NoTornWord.closed {x : Transmission} {xs : List Transmission}
    (h : NoTornWord (x :: xs)) (hfailed : x.whole = false) :
    ∀ i < x.taken.length, ¬ WindowAt 17 isAtFrame (stream (x :: xs)) i := by
  intro i hi hat
  have hlen : i < (written (x :: xs)).length := by
    rw [written_cons, List.length_append, List.length_map]
    omega
  have hb := List.getElem?_eq_getElem hlen
  have htrue := h i _ hat hb
  rw [written_own hi hb, hfailed] at htrue
  cases htrue

/-- Then the peer takes the whole frames and nothing else. -/
theorem words_of_noTornWord {xs : List Transmission} (h : NoTornWord xs) : words xs =
    (xs.filter Transmission.whole).map fun x => x.sent.encoding.map fun b => (b, true) := by
  induction xs with
  | nil => rfl
  | cons x xs ih =>
      cases hwhole : x.whole with
      | true => rw [words_whole hwhole, List.filter_cons_of_pos hwhole, List.map_cons, ih h.tail]
      | false =>
          rw [words_skip (h.closed hwhole), ih h.tail,
            List.filter_cons_of_neg (by rw [hwhole]; exact Bool.false_ne_true)]

theorem scanned_of_noTornWord {xs : List Transmission} (h : NoTornWord xs) :
    scanned (stream xs) = (xs.filter Transmission.whole).map fun x => x.sent.carried := by
  rw [scanned, scan_stream, words_of_noTornWord h, List.map_map, List.map_map]
  refine List.map_congr_left fun x _ => ?_
  show parseWord ((x.sent.encoding.map fun b => (b, true)).map Prod.fst) = x.sent.carried
  rw [map_fst_label, x.sent.parse_encoding]

/-- A word that opens in the first transmit's bytes makes the peer take one of them. -/
theorem taken_of_windowAt {x : Transmission} {xs : List Transmission} {i : ℕ}
    (hi : i < x.taken.length)
    (hat : WindowAt 17 isAtFrame (stream (x :: xs)) i) :
    ∃ w ∈ words (x :: xs), ∃ b ∈ w, b.2 = x.whole := by
  rw [stream, ← windowAt_map] at hat
  obtain ⟨j, hji, w, hw, hget⟩ := exists_mem_scan (by omega) hat
  obtain ⟨b, hb, hfirst⟩ := hget 0 (by omega)
  exact ⟨w, hw, b, hb, written_own (Nat.lt_of_le_of_lt hji hi) hfirst⟩

/-- Where the peer takes no byte of a failed transmit, no word opens in one. -/
theorem noTornWord_of_untouched {xs : List Transmission}
    (h : ∀ w ∈ words xs, ∀ b ∈ w, b.2 = true) : NoTornWord xs := by
  induction xs with
  | nil =>
      intro i b _ hb
      cases hb
  | cons x xs ih =>
      -- The rest of the line is taken as if it stood alone.
      have hrest : x.whole = false → ∀ i < x.taken.length,
          ¬ WindowAt 17 isAtFrame (stream (x :: xs)) i := by
        intro hfailed i hi hat
        obtain ⟨w, hw, b, hb, hlabel⟩ := taken_of_windowAt hi hat
        rw [hfailed, h w hw b hb] at hlabel
        cases hlabel
      have htail : ∀ w ∈ words xs, ∀ b ∈ w, b.2 = true := by
        intro w hw
        cases hwhole : x.whole with
        | true => exact h w (by rw [words_whole hwhole]; exact List.mem_cons_of_mem _ hw)
        | false => exact h w (by rwa [words_skip (hrest hwhole)])
      intro i b hat hb
      rcases Nat.lt_or_ge i x.taken.length with hi | hi
      · rw [written_own hi hb]
        by_contra hfailed
        exact hrest (Bool.eq_false_of_not_eq_true hfailed) i hi hat
      · obtain ⟨k, rfl⟩ := Nat.exists_eq_add_of_le hi
        rw [windowAt_stream_cons] at hat
        rw [written_getElem?_cons] at hb
        exact ih htail k b hat hb

/-! ### What the peer makes of it -/

/-- **Failed writes are tolerated** exactly when no word opens in the bytes they left. -/
theorem torn_tolerated_iff {sender : SerialTransport} (hfd : 0 ≤ sender.fd)
    (xs : List Transmission) : Tolerates sender xs ↔ NoTornWord xs := by
  have hline : lineOf sender xs = stream xs := congrArg (List.map Prod.fst) (labelled_eq hfd xs)
  have hwords : labelledWords sender xs = words xs := congrArg (scan 17 _) (labelled_eq hfd xs)
  constructor
  · intro h
    have huntouched := h.untouched
    rw [hwords] at huntouched
    exact noTornWord_of_untouched huntouched
  · intro h
    refine ⟨?_, ?_⟩
    · intro t calls ht hempty hclamp hread
      rw [yields_iff ht hempty hclamp, hread, hline, scanned_of_noTornWord h, successes,
        succeeded_eq hfd]
    · intro w hw b hb
      rw [hwords, words_of_noTornWord h] at hw
      obtain ⟨x, -, rfl⟩ := List.mem_map.mp hw
      obtain ⟨c, -, rfl⟩ := List.mem_map.mp hb
      rfl

/-- The frame sent after a torn one, its payload ending in the terminator. -/
def tailFrame : Sendable where
  frame := ⟨0x83FD0105, 8, #v[0, 0, 0, 0, 0, 0, 0x0D, 0x0A]⟩
  eff := by decide
  dlc_le := by decide

/-- Fifteen bytes of a frame, then a frame that holds no terminator where the torn word ends. -/
theorem torn_tolerated_iff_sample :
    Tolerates (SerialTransport.initial.connect (some 3)).2
        [⟨tailFrame, 15, by decide⟩, ⟨tailFrame, 17, by decide⟩] ↔
      NoTornWord [⟨tailFrame, 15, by decide⟩, ⟨tailFrame, 17, by decide⟩] :=
  torn_tolerated_iff (by decide) _

/-- **A torn header** joins the frame behind it: `AT` is left on the line, and the next frame ends
its payload with CR LF. -/
theorem torn_header_joined : ¬ ∀ (sender : SerialTransport) (xs : List Transmission),
    0 ≤ sender.fd → Tolerates sender xs := by
  intro hall
  have hfd : (0 : ℤ) ≤ (SerialTransport.initial.connect (some 3)).2.fd := by decide
  have htorn := hall _ [⟨tailFrame, 2, by decide⟩, ⟨tailFrame, 17, by decide⟩] hfd
  have huntouched := htorn.untouched
  rw [labelledWords, labelled_eq hfd] at huntouched
  -- The header of the torn frame is the first word's first byte.
  have hfirst := noTornWord_of_untouched huntouched 0 (0x41, false) ⟨by decide, by decide⟩ rfl
  exact absurd hfirst (by decide)

end Robstride
