import Robstride.Serial.Deaf

/-!
# Serial — Accepted words

`receive` takes any 17 bytes from `AT` to a terminator (`accepted_iff`) and checks neither the
length byte nor the three flag bits below the id.  The frame it returns is a well-formed extended
frame, which `transmit` writes back as it came, exactly when the length byte is at most 8 and the
flag bits are those of an extended data frame (`accepted_wellFormed_iff`).
-/

namespace Robstride

open Support SerialTransport SerialRingBuffer

/-! ### What is accepted -/

/-- Byte `i` of a word. -/
def wordByte (raw : Vector Byte 17) (i : ℕ) : Byte := raw.toList.getD i 0

namespace SerialTransport

/-- An open transport takes the word from its ring. -/
def Accepts (t : SerialTransport) (reads : List Chunk) (raw : Vector Byte 17) : Prop :=
  0 ≤ t.fd ∧ ∃ ringBuf, (drain t.ringBuf reads).popFrame 17 = some (raw, ringBuf)

theorem Accepts.receive_eq {t : SerialTransport} {reads : List Chunk} {raw : Vector Byte 17}
    (h : t.Accepts reads raw) : (t.receive reads).1 = .ok (parseRaw raw) := by
  obtain ⟨hfd, ringBuf, hpop⟩ := h
  simp only [receive, if_neg (not_lt.mpr hfd), hpop]

/-- A word is a window of the ring. -/
theorem Accepts.isAtFrame {t : SerialTransport} {reads : List Chunk} {raw : Vector Byte 17}
    (h : t.Accepts reads raw) : isAtFrame raw.toList := by
  obtain ⟨-, ringBuf, hpop⟩ := h
  have hscan := popFrame_refines (drain t.ringBuf reads) (show 2 ≤ 17 by omega)
  rw [hpop, Option.map_some] at hscan
  obtain ⟨i, hat, -, hw, -⟩ := firstWindow_eq_some hscan.symm
  rw [hw]
  exact hat.2

end SerialTransport

/-- The word in one read. -/
def wordChunk (raw : Vector Byte 17) : Chunk where
  bytes := raw.toList
  pos := by simp
  le := by simp

/-- A transport just opened takes every word that has the header and the terminator. -/
theorem accepts_of_isAtFrame {raw : Vector Byte 17} (h : isAtFrame raw.toList) :
    (SerialTransport.initial.connect (some 3)).2.Accepts [wordChunk raw] raw := by
  have hfits : (SerialTransport.initial.connect (some 3)).2.ringBuf.size +
      (bytesOf [wordChunk raw]).length ≤ 511 := by
    rw [← contents_length, bytesOf_cons]
    simp [SerialTransport.connect, SerialTransport.initial, wordChunk]
  have hring := drain_contents (unclamped_of_fits hfits)
  have hcontents : (drain (SerialTransport.initial.connect (some 3)).2.ringBuf
      [wordChunk raw]).contents = [] ++ raw.toList ++ [] := by
    rw [hring]
    simp [SerialTransport.connect, SerialTransport.initial, wordChunk]
  have hscan : firstWindow 17 isAtFrame ([] ++ raw.toList ++ []) = some (raw.toList, []) :=
    firstWindow_skip (by omega) (fun i hi => absurd hi (Nat.not_lt_zero i)) raw.length_toList h
  rw [← hcontents, ← popFrame_refines _ (by omega), Option.map_eq_some_iff] at hscan
  obtain ⟨⟨raw', ringBuf⟩, hpop, heq⟩ := hscan
  obtain rfl : raw' = raw := Vector.toList_inj.mp (Prod.mk.inj heq).1
  exact ⟨by decide, ringBuf, hpop⟩

/-- **The words accepted** are those from `AT` to carriage return and line feed. -/
theorem accepted_iff (raw : Vector Byte 17) :
    (∃ t reads, Reachable t ∧ t.Accepts reads raw) ↔ isAtFrame raw.toList := by
  constructor
  · rintro ⟨t, reads, -, haccepts⟩
    exact haccepts.isAtFrame
  · exact fun h => ⟨_, _, .connect (some 3) .initial, accepts_of_isAtFrame h⟩

/-! ### Well-formed words -/

/-- The frame returned for the word is a well-formed extended frame: its length is a CAN length,
the word has the flag bits of an extended data frame, and every open transport writes the frame
back with the word's header, id and length bytes. -/
structure WellFormed (raw : Vector Byte 17) (frame : CanFrame) : Prop where
  dlc_le : frame.canDlc.toNat ≤ 8
  flags : wordByte raw 5 &&& 0x07 = 0x04
  again : ∀ t : SerialTransport, 0 ≤ t.fd → ∃ bytes,
    t.transmit frame 17 = some (.success, bytes) ∧ bytes.take 7 = raw.toList.take 7

/-- The id bytes of a word, joined. -/
def wordId (raw : Vector Byte 17) : BitVec 32 :=
  ((wordByte raw 2).setWidth 32 <<< 24) ||| ((wordByte raw 3).setWidth 32 <<< 16) |||
    ((wordByte raw 4).setWidth 32 <<< 8) ||| (wordByte raw 5).setWidth 32

/-- The id field is written back when the three bits that are dropped are those that are put. -/
theorem encode_parse_id {x : BitVec 32} (h : x &&& 0x07 = 0x04) :
    ((((x >>> 3) ||| canEffFlag) &&& canEffMask) <<< 3) ||| 0x04 = x := by
  have h₀ : x[0] = false := by
    simpa using congrArg (·.getLsbD 0) h
  have h₁ : x[1] = false := by
    simpa using congrArg (·.getLsbD 1) h
  have h₂ : x[2] = true := by
    simpa using congrArg (·.getLsbD 2) h
  refine BitVec.eq_of_getLsbD_eq fun i hi => ?_
  unfold canEffFlag canEffMask
  interval_cases i <;> simp [h₀, h₁, h₂]

section

variable {raw : Vector Byte 17}

theorem getElem?_word {i : ℕ} (hi : i < 17) : raw.toList[i]? = some (wordByte raw i) := by
  rw [wordByte, List.getD_eq_getElem?_getD, List.getElem?_eq_getElem (by simpa using hi),
    Option.getD_some]

theorem take_word (raw : Vector Byte 17) : raw.toList.take 7 = [wordByte raw 0, wordByte raw 1,
    wordByte raw 2, wordByte raw 3, wordByte raw 4, wordByte raw 5, wordByte raw 6] := by
  refine List.ext_getElem? fun i => ?_
  rcases Nat.lt_or_ge i 7 with hi | hi
  · rw [List.getElem?_take_of_lt hi, getElem?_word (by omega)]
    interval_cases i <;> rfl
  · rw [List.getElem?_eq_none (by simpa using hi), List.getElem?_eq_none (by simpa using hi)]

/-- What `receive` returns for a word. -/
theorem parseRaw_word (raw : Vector Byte 17) :
    (parseRaw raw).canId = (wordId raw >>> 3) ||| canEffFlag ∧
      (parseRaw raw).canDlc = wordByte raw 6 := by
  constructor
  · simp [parseRaw, wordId, wordByte]
  · simp [parseRaw, wordByte]

/-- The bytes of the id field. -/
theorem wordId_bytes (raw : Vector Byte 17) : (wordId raw >>> 24).setWidth 8 = wordByte raw 2 ∧
    (wordId raw >>> 16).setWidth 8 = wordByte raw 3 ∧
    (wordId raw >>> 8).setWidth 8 = wordByte raw 4 ∧
    (wordId raw).setWidth 8 = wordByte raw 5 := by
  unfold wordId
  refine ⟨?_, ?_, ?_, ?_⟩ <;> refine BitVec.eq_of_getLsbD_eq fun i hi => ?_ <;>
    interval_cases i <;> simp

/-- The three bits below the id field. -/
theorem wordId_flags : wordId raw &&& 0x07 = (wordByte raw 5 &&& 0x07).setWidth 32 := by
  unfold wordId
  refine BitVec.eq_of_getLsbD_eq fun i hi => ?_
  interval_cases i <;> simp

end

theorem eff_parsed (x : BitVec 32) : (x ||| canEffFlag) &&& canEffFlag ≠ 0 := by
  intro h
  have hbit : ((x ||| canEffFlag) &&& canEffFlag).getLsbD 31 = false := by
    rw [h]
    rfl
  simp [canEffFlag] at hbit

/-- The first seven bytes that `transmit` writes. -/
theorem atFrame_take (frame : CanFrame) : (atFrame frame).toList.take 7 =
    ([0x41, 0x54, (((frame.canId &&& canEffMask) <<< 3 ||| 0x04) >>> 24).setWidth 8,
      (((frame.canId &&& canEffMask) <<< 3 ||| 0x04) >>> 16).setWidth 8,
      (((frame.canId &&& canEffMask) <<< 3 ||| 0x04) >>> 8).setWidth 8,
      ((frame.canId &&& canEffMask) <<< 3 ||| 0x04).setWidth 8, frame.canDlc] : List Byte) := rfl

/-- A word starts with the header. -/
theorem header_word {raw : Vector Byte 17} (h : isAtFrame raw.toList) :
    wordByte raw 0 = 0x41 ∧ wordByte raw 1 = 0x54 := by
  obtain ⟨hA, hT, -, -⟩ := (isAtFrame_iff raw.length_toList).mp h
  rw [getElem?_word (by omega)] at hA hT
  exact ⟨Option.some.inj hA, Option.some.inj hT⟩

/-- A word with a CAN length and the flag bits of an extended data frame. -/
theorem wellFormed_of_legal {raw : Vector Byte 17} (hword : isAtFrame raw.toList)
    (hdlc : (wordByte raw 6).toNat ≤ 8) (hflags : wordByte raw 5 &&& 0x07 = 0x04) :
    WellFormed raw (parseRaw raw) := by
  obtain ⟨hid, hlen⟩ := parseRaw_word raw
  refine ⟨by rwa [hlen], hflags, fun t hfd => ⟨(atFrame (parseRaw raw)).toList, ?_, ?_⟩⟩
  · have heff : (parseRaw raw).canId &&& canEffFlag ≠ 0 := hid ▸ eff_parsed _
    rw [SerialTransport.transmit, if_neg (not_lt.mpr hfd), if_neg heff, if_neg (by rw [hlen]; omega),
      if_pos rfl, List.take_of_length_le (by simp)]
  · have hback : ((parseRaw raw).canId &&& canEffMask) <<< 3 ||| 0x04 = wordId raw := by
      rw [hid]
      exact encode_parse_id (by rw [wordId_flags, hflags]; rfl)
    obtain ⟨hA, hT⟩ := header_word hword
    obtain ⟨h₂, h₃, h₄, h₅⟩ := wordId_bytes raw
    rw [atFrame_take, hback, h₂, h₃, h₄, h₅, hlen, take_word, hA, hT]

/-- **A word accepted** is returned as a well-formed extended frame exactly when its length byte
is at most 8 and its flag bits are those of an extended data frame. -/
theorem accepted_wellFormed_iff {t : SerialTransport} {reads : List Chunk} {raw : Vector Byte 17}
    (h : t.Accepts reads raw) : ∃ frame, (t.receive reads).1 = .ok frame ∧
      (WellFormed raw frame ↔ (wordByte raw 6).toNat ≤ 8 ∧ wordByte raw 5 &&& 0x07 = 0x04) := by
  refine ⟨parseRaw raw, h.receive_eq, fun hwell => ?_, fun hlegal => ?_⟩
  · have hdlc := hwell.dlc_le
    rw [(parseRaw_word raw).2] at hdlc
    exact ⟨hdlc, hwell.flags⟩
  · exact wellFormed_of_legal h.isAtFrame hlegal.1 hlegal.2

/-- The word of a frame of length 4. -/
theorem accepted_wellFormed_iff_sample :
    let raw := atFrame ⟨0x83FD0105, 4, #v[0x41, 0x54, 0x0D, 0x0A, 0, 0, 0, 0]⟩
    ∃ frame, ((SerialTransport.initial.connect (some 3)).2.receive [wordChunk raw]).1 = .ok frame ∧
      (WellFormed raw frame ↔ (wordByte raw 6).toNat ≤ 8 ∧ wordByte raw 5 &&& 0x07 = 0x04) := by
  intro raw
  exact accepted_wellFormed_iff (accepts_of_isAtFrame (isAtFrame_atFrame _))

/-- A word whose length byte is 255. -/
def longWord : Vector Byte 17 :=
  #v[0x41, 0x54, 0, 0, 0, 0x04, 0xFF, 0, 0, 0, 0, 0, 0, 0, 0, 0x0D, 0x0A]

/-- **A length above 8** is accepted and passed on. -/
theorem long_word_accepted : ¬ ∀ (t : SerialTransport) (reads : List Chunk) (raw : Vector Byte 17),
    Reachable t → t.Accepts reads raw →
      ∃ frame, (t.receive reads).1 = .ok frame ∧ WellFormed raw frame := by
  intro hall
  have haccepts := accepts_of_isAtFrame (show isAtFrame longWord.toList by decide)
  obtain ⟨frame, hframe, hwell⟩ := hall _ _ _ (.connect (some 3) .initial) haccepts
  have hparse : frame = parseRaw longWord :=
    Except.ok.inj (hframe.symm.trans haccepts.receive_eq)
  have hdlc := hwell.dlc_le
  rw [hparse] at hdlc
  exact absurd hdlc (by decide)

end Robstride
