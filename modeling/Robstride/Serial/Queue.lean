import Robstride.Sdk.Cells
import Robstride.Support.Simulation

/-!
# Serial — The ring buffer is a queue of bytes

Every sequence of `reset`, `push` and `pop_frame` keeps the members of the buffer and a queue of
at most 511 bytes in step (`ring_refines_queue`).  The members are those of `Sdk/Cells.lean`,
whose index computations are checked: that a run has a result says that none underflows.
-/

namespace Robstride

open Support SerialRingBuffer

/-! ### The queue -/

/-- `AT` at `i`, and CR LF at the end of the `frameLen` bytes from there, inside the queue. -/
structure FrameAt (q : List Byte) (frameLen i : ℕ) : Prop where
  fits : i + frameLen ≤ q.length
  a : q[i]? = some 0x41
  t : q[i + 1]? = some 0x54
  cr : q[i + frameLen - 2]? = some 0x0D
  lf : q[i + frameLen - 1]? = some 0x0A

/-- What a call does to the queue, with the frame it outputs. -/
inductive QueueStep (q : List Byte) : RingCall → Option (List Byte) → List Byte → Prop where
  | reset : QueueStep q .reset none []
  | push {src taken : List Byte} (htaken : taken <+: src) (hroom : (q ++ taken).length ≤ 511)
      (hlongest : ∀ more, more <+: src → (q ++ more).length ≤ 511 → more.length ≤ taken.length) :
      QueueStep q (.push src) none (q ++ taken)
  | found {frameLen i : ℕ} (h : FrameAt q frameLen i) (hleast : ∀ j < i, ¬ FrameAt q frameLen j) :
      QueueStep q (.popFrame frameLen) (some ((q.drop i).take frameLen)) (q.drop (i + frameLen))
  | missing {frameLen : ℕ} (h : ∀ i, ¬ FrameAt q frameLen i) :
      QueueStep q (.popFrame frameLen) none q

/-- The members hold the queue, its bytes in the cells from `head_` on. -/
structure Holds (m : RingMembers) (q : List Byte) : Prop where
  head_lt : m.head < 512
  tail_lt : m.tail < 512
  size : m.size = some q.length
  length_le : q.length ≤ 511
  read : ∀ i, i < q.length → q[i]? = some (m.read (m.head + i))

/-- Through the turns of a `push`, the bytes unread before it stay where they are, and those
pushed so far follow them. -/
def KeepsUnread (m : RingMembers) (q : List Byte) : Prop :=
  ∀ src m', m.push src = some m' → ∃ len ≤ src.length,
    m' = (src.take len).foldl RingMembers.pushByte m ∧
      ∀ k ≤ len, ((src.take k).foldl RingMembers.pushByte m).head = m.head ∧
        Holds ((src.take k).foldl RingMembers.pushByte m) (q ++ src.take k)

/-- The lengths `pop_frame` is called with. -/
def RingCall.InRange : RingCall → Prop
  | .popFrame frameLen => 4 ≤ frameLen ∧ frameLen ≤ 511
  | _ => True

instance (c : RingCall) : Decidable c.InRange := by
  cases c <;> unfold RingCall.InRange <;> infer_instance

/-! ### What the members hold -/

theorem holds_members (rb : SerialRingBuffer) : Holds rb.members rb.contents where
  head_lt := rb.head_lt
  tail_lt := rb.tail_lt
  size := by rw [size_members, contents_length]
  length_le := by
    have := rb.size_lt
    rw [contents_length]
    omega
  read := by
    intro i hi
    rw [read_members, peek_eq rb (by simpa using hi)]

/-- Members that hold a queue are those of a buffer with these contents. -/
theorem Holds.exists_buffer {m : RingMembers} {q : List Byte} (h : Holds m q) :
    ∃ rb : SerialRingBuffer, rb.members = m ∧ rb.contents = q := by
  refine ⟨⟨m.buf, m.head, m.tail, h.head_lt, h.tail_lt⟩, rfl, ?_⟩
  have hsize : (⟨m.buf, m.head, m.tail, h.head_lt, h.tail_lt⟩ : SerialRingBuffer).size =
      q.length := Option.some.inj ((size_members _).symm.trans h.size)
  refine List.ext_getElem? fun i => ?_
  rcases Nat.lt_or_ge i q.length with hi | hi
  · rw [peek_eq _ (by omega), h.read i hi]
    rfl
  · rw [List.getElem?_eq_none (by rw [contents_length]; omega), List.getElem?_eq_none hi]

/-! ### The calls -/

section

variable (rb : SerialRingBuffer)

theorem push_queueStep (src : List Byte) :
    QueueStep rb.contents (.push src) none (rb.push src).contents := by
  have hsize := rb.size_lt
  rw [push_contents, clampLen_eq_min]
  refine .push ⟨src.drop (min src.length (511 - rb.size)), List.take_append_drop _ src⟩ ?_ ?_
  · rw [List.length_append, List.length_take, contents_length]
    omega
  · rintro more ⟨rest, rfl⟩ hroom
    rw [List.length_append, contents_length] at hroom
    rw [List.length_take, List.length_append]
    omega

/-- Each turn of `push` writes the first free cell. -/
theorem keepsUnread_members : KeepsUnread rb.members rb.contents := by
  intro src m' hpush
  have hsize := rb.size_lt
  have hclamp := rb.clampLen_eq_min src.length
  rw [push_members, Option.some.injEq, push, members_foldl] at hpush
  refine ⟨rb.clampLen src.length, by omega, hpush.symm, fun k hk => ?_⟩
  have hholds := holds_members ((src.take k).foldl pushByte rb)
  rw [members_foldl, foldl_pushByte_contents rb _ (by rw [List.length_take]; omega)] at hholds
  exact ⟨RingMembers.foldl_pushByte_head _ _, hholds⟩

theorem frameAt_iff_windowAt {q : List Byte} {frameLen i : ℕ} (hlen : 2 ≤ frameLen) :
    FrameAt q frameLen i ↔ WindowAt frameLen isAtFrame q i := by
  rw [windowAt_isAtFrame hlen]
  exact ⟨fun h => ⟨h.fits, h.a, h.t, h.cr, h.lf⟩, fun ⟨hf, ha, ht, hc, hl⟩ => ⟨hf, ha, ht, hc, hl⟩⟩

theorem popFrame_queueStep {frameLen : ℕ} (hlen : 2 ≤ frameLen) :
    QueueStep rb.contents (.popFrame frameLen) ((rb.popFrame frameLen).map (fun p => p.1.toList))
      (((rb.popFrame frameLen).map Prod.snd).getD rb).contents := by
  have hscan := rb.popFrame_refines hlen
  cases hpop : rb.popFrame frameLen with
  | none =>
      rw [hpop] at hscan
      have hno := (firstWindow_eq_none_iff (by omega) rb.contents).mp hscan.symm
      exact .missing fun i hi => hno i ((frameAt_iff_windowAt hlen).mp hi)
  | some p =>
      rw [hpop] at hscan
      obtain ⟨i, hat, hleast, hout, hrest⟩ := firstWindow_eq_some hscan.symm
      simp only [Option.map_some, Option.getD_some, hout, hrest]
      refine .found ((frameAt_iff_windowAt hlen).mpr hat) fun j hj hj' => ?_
      exact hleast j hj ((frameAt_iff_windowAt hlen).mp hj')

end

/-- **One call**: it has a result, and the queue follows. -/
theorem call_simulates : Simulates RingMembers.call QueueStep RingCall.InRange Holds := by
  intro m q c hc hm
  obtain ⟨rb, rfl, rfl⟩ := hm.exists_buffer
  cases c with
  | reset =>
      refine ⟨none, rb.reset.members, rb.reset.contents, rfl, ?_, holds_members _⟩
      rw [contents_reset]
      exact .reset
  | push src =>
      refine ⟨none, (rb.push src).members, _, ?_, push_queueStep rb src, holds_members _⟩
      rw [RingMembers.call, push_members, Option.map_some]
  | popFrame frameLen =>
      have hlen : 2 ≤ frameLen := Nat.le_trans (by omega) hc.1
      exact ⟨_, _, _, popFrame_members rb hlen, popFrame_queueStep rb hlen, holds_members _⟩

/-! ### Every run -/

/-- **The ring buffer refines the queue**: every sequence of calls from the buffer as constructed
has a result and underflows nowhere; the outputs are the queue's, the members hold it, and no
`push` overwrites an unread byte. -/
theorem ring_refines_queue {calls : List RingCall} (h : ∀ c ∈ calls, c.InRange) :
    ∃ outs m q, runCalls RingMembers.call RingMembers.initial calls = some (outs, m) ∧
      Run QueueStep [] calls outs q ∧ Holds m q ∧ KeepsUnread m q := by
  have hinitial : Holds RingMembers.initial [] := by
    rw [← contents_initial]
    exact holds_members SerialRingBuffer.initial
  obtain ⟨outs, m, q, hrun, hqueue, hm⟩ := call_simulates.run h hinitial
  refine ⟨outs, m, q, hrun, hqueue, hm, ?_⟩
  obtain ⟨rb, rfl, rfl⟩ := hm.exists_buffer
  exact keepsUnread_members rb

/-- The four bytes of the shortest frame, after a byte that is dropped. -/
theorem ring_refines_queue_shortest : ∃ outs m q,
    runCalls RingMembers.call RingMembers.initial
        [.push [0x41, 0x41, 0x54, 0x0D, 0x0A, 0x41], .popFrame 4, .popFrame 4] = some (outs, m) ∧
      Run QueueStep [] [.push [0x41, 0x41, 0x54, 0x0D, 0x0A, 0x41], .popFrame 4, .popFrame 4]
        outs q ∧ Holds m q ∧ KeepsUnread m q :=
  ring_refines_queue (by decide)

end Robstride
