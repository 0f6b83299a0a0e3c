import Robstride.Motor.Loops

/-!
# Motor — Delivery

From the serial line to the motors.  Frames and gaps arrive on the line, cut into reads at will; a
loop calls `receive`, and hands on what it returns, while other threads transmit and change the
motors.  The ring is empty at first, and no gap has the bytes of `AT` side by side.  As long as the
ring has room, the loop gets a first part of the frames, in order, and a motor shows each of them as
often as the list names it (`line_reaches_motors`); a `receive` that has read all and returns no
frame says that this was all of them.
-/

namespace Robstride

open Support Support.Machine SerialTransport

/-! ### Runs on the line -/

variable {ι : Type}

/-- What happens to a serial line and its loop. -/
abbrev SerialEvent (ι : Type) := LoopEvent (Option ℕ) ℤ (List Round) ι

/-- What the event reads from the line. -/
def LoopEvent.bytes : SerialEvent ι → List Byte
  | receive rounds => bytesOf (chunksOf rounds)
  | test | dispatch | transport _ | motor _ _ => []

/-- The bytes read off the line. -/
def bytesRead (es : List (SerialEvent ι)) : List Byte := es.flatMap LoopEvent.bytes

/-- Other threads only transmit: the loop is the only one to receive, and nobody connects or
disconnects. -/
def OthersTransmit (es : List (SerialEvent ι)) : Prop :=
  ∀ c, .transport c ∈ es → ∃ frame nbytes, c = .transmit frame nbytes

/-- The ring has room for what the event reads. -/
def HasRoom (s : LoopState SerialTransport ι) (e : SerialEvent ι) : Prop :=
  ∀ rounds, e = .receive rounds → Unclamped s.transport.ringBuf (chunksOf rounds)

variable [DecidableEq ι]

/-- The ring has room at every event of the run. -/
def NeverFull (fn : ReceiveFn ι) (m : ι → Motor) (s : LoopState SerialTransport ι)
    (es : List (SerialEvent ι)) : Prop :=
  ∀ before e after s', es = before ++ e :: after →
    before.foldlM (fn.next m serial) s = some s' → HasRoom s' e

/-! ### The invariant -/

variable {fn : ReceiveFn ι} {m : ι → Motor} {s s' k : LoopState SerialTransport ι}
  {es : List (SerialEvent ι)} {unread : List Byte} {items : List (Gap × ExtFrame)} {last : Gap}

/-- The ring and the bytes not yet read spell what the line carried, but for the frames that were
returned. -/
structure OnLine (items : List (Gap × ExtFrame)) (last : Gap) (unread : List Byte)
    (s : LoopState SerialTransport ι) : Prop where
  connected : 0 ≤ s.transport.fd
  line : ∃ done rest, items = done ++ rest ∧ s.returned = framesOf done ∧
    s.transport.ringBuf.contents ++ unread = wire rest last

/-- A `receive` of the loop moves a frame from the line to the frames returned, or none; and where
all bytes were read, it returns none only when none is left. -/
theorem OnLine.receive {rounds : List Round}
    (h : OnLine items last (bytesOf (chunksOf rounds) ++ unread) s)
    (hroom : Unclamped s.transport.ringBuf (chunksOf rounds))
    (hstep : LoopStep fn m serial s (.receive rounds) s') :
    OnLine items last unread s' ∧
      ((∀ frame rest, s'.control ≠ .dispatch frame rest) → unread = [] →
        s'.returned = framesOf items) := by
  obtain ⟨hfd, done, rest, rfl, hreturned, hwire⟩ := h
  have hfd' : 0 ≤ (s.transport.receive (chunksOf rounds)).2.fd := by rwa [receive_fd]
  cases hstep with
  | @frame answer frame hat hok =>
      rcases receive_on_wire hfd hroom hwire with ⟨herror, -, -⟩ | ⟨g, f, rest', rfl, hframe, hwire'⟩
      · rw [show (serial.receive s.transport rounds).1 = _ from herror] at hok
        cases hok
      · rw [show (serial.receive s.transport rounds).1 = _ from hframe] at hok
        obtain rfl := Except.ok.inj hok
        refine ⟨⟨hfd', done ++ [(g, f)], rest', by simp, ?_, hwire'⟩, fun hnot => ?_⟩
        · rw [hreturned]
          simp [framesOf]
        · exact absurd rfl (hnot _ _)
  | error hat herror =>
      rcases receive_on_wire hfd hroom hwire with ⟨-, hwire', hall⟩ | ⟨g, f, rest', -, hframe, -⟩
      · refine ⟨⟨hfd', done, rest, rfl, hreturned, hwire'⟩, fun _ hread => ?_⟩
        rw [hall hread, List.append_nil]
        exact hreturned
      · rw [show (serial.receive s.transport rounds).1 = _ from hframe] at herror
        cases herror

omit [DecidableEq ι] in
/-- What is on the line is a matter of the ring and of the frames returned. -/
theorem OnLine.congr (h : OnLine items last unread s) (htransport : s'.transport = s.transport)
    (hreturned : s'.returned = s.returned) : OnLine items last unread s' := by
  constructor
  · rw [htransport]
    exact h.connected
  · rw [htransport, hreturned]
    exact h.line

/-- What one event keeps. -/
theorem OnLine.step {e : SerialEvent ι} (h : OnLine items last (e.bytes ++ unread) s)
    (hroom : HasRoom s e) (hothers : OthersTransmit [e]) (hstep : LoopStep fn m serial s e s') :
    OnLine items last unread s' := by
  cases e with
  | receive rounds => exact (OnLine.receive h (hroom rounds rfl) hstep).1
  | transport call =>
      obtain ⟨frame, nbytes, rfl⟩ := hothers call List.mem_cons_self
      cases hstep
      exact OnLine.congr h rfl rfl
  | test =>
      cases hstep with
      | enter _ _ | leave _ _ => exact OnLine.congr h rfl rfl
  | dispatch =>
      cases hstep with
      | hand _ | handed _ => exact OnLine.congr h rfl rfl
  | motor i u =>
      cases hstep
      exact OnLine.congr h rfl rfl

omit [DecidableEq ι] in
/-- One more event reads its own bytes. -/
theorem bytesRead_snoc (es : List (SerialEvent ι)) (e : SerialEvent ι) :
    bytesRead (es ++ [e]) = bytesRead es ++ e.bytes := by
  simp [bytesRead]

/-- Over a run the frames returned and the bytes still held make up the line. -/
theorem OnLine.run {s₀ : LoopState SerialTransport ι} (hothers : OthersTransmit es)
    (hfull : NeverFull fn m s₀ es) (hrun : es.foldlM (fn.next m serial) s₀ = some k)
    (h : OnLine items last (bytesRead es ++ unread) s₀) : OnLine items last unread k := by
  induction es using List.reverseRecOn generalizing k unread with
  | nil =>
      obtain rfl := run_nil.mp hrun
      exact h
  | append_singleton es e ih =>
      obtain ⟨s, hbefore, hnext⟩ := run_snoc.mp hrun
      rw [bytesRead_snoc, List.append_assoc] at h
      have hs : OnLine items last (e.bytes ++ unread) s := by
        refine ih (fun c hc => hothers c (List.mem_append_left _ hc)) ?_ hbefore h
        rintro before e' after s' rfl
        exact hfull before e' (after ++ [e]) s' (by simp)
      refine hs.step (hfull es e [] s rfl hbefore) ?_ (next_step hnext)
      intro c hc
      exact hothers c (List.mem_append_right _ hc)

/-- **From the line to the motors**: the loop gets a first part of the frames on the line, in their
order, and a motor shows each as often as the list names it, once it has had its share of the last;
where the loop has read the whole line and a `receive` then returns no frame, it has got them
all. -/
theorem line_reaches_motors {t : SerialTransport} (hfd : 0 ≤ t.fd)
    (hempty : t.ringBuf.contents = []) (hothers : OthersTransmit es)
    (hfull : NeverFull fn m (fn.start m t) es) (hread : bytesRead es <+: wire items last)
    (hrun : es.foldlM (fn.next m serial) (fn.start m t) = some k) :
    k.returned <+: framesOf items ∧
    (∀ i, k.control.pending i = [] →
      StatusOf (m i) (copies fn.motors k.returned i) (k.guarded i).status) ∧
    ∀ before rounds, es = before ++ [.receive rounds] → bytesRead es = wire items last →
      (∀ frame rest, k.control ≠ .dispatch frame rest) →
        k.returned = framesOf items ∧
          ∀ i, StatusOf (m i) (copies fn.motors (framesOf items) i) (k.guarded i).status := by
  obtain ⟨unread, hunread⟩ := hread
  have hstart : OnLine items last (bytesRead es ++ unread) (fn.start m t) := by
    refine ⟨hfd, [], items, rfl, rfl, ?_⟩
    change t.ringBuf.contents ++ _ = _
    rw [hempty, List.nil_append, hunread]
  have hhands := handsOver_run hrun
  obtain ⟨-, done, rest, hsplit, hreturned, -⟩ := OnLine.run hothers hfull hrun hstart
  refine ⟨?_, fun i hpending => hhands.statusOf_copies hpending, ?_⟩
  · rw [hreturned, hsplit]
    exact ⟨framesOf rest, by simp [framesOf]⟩
  · rintro before rounds rfl hall hnot
    have hnil : unread = [] := by
      rw [hall] at hunread
      exact List.append_right_eq_self.mp hunread
    obtain ⟨s, hbefore, hnext⟩ := run_snoc.mp hrun
    -- The last `receive` has read the whole line.
    have hs : OnLine items last (bytesOf (chunksOf rounds) ++ unread) s := by
      rw [bytesRead_snoc, List.append_assoc] at hstart
      refine OnLine.run (fun c hc => hothers c (List.mem_append_left _ hc)) ?_ hbefore hstart
      rintro before' e' after s' rfl
      exact hfull before' e' (after ++ [.receive rounds]) s' (by simp)
    have hroom := hfull before (.receive rounds) [] s rfl hbefore rounds rfl
    have hreturned' := (hs.receive hroom (next_step hnext)).2 hnot hnil
    refine ⟨hreturned', fun i => ?_⟩
    rw [← hreturned']
    refine hhands.statusOf_copies ?_
    cases hcontrol : k.control with
    | dispatch frame rest => exact absurd hcontrol (hnot frame rest)
    | isConnected | receive | left => rfl

/-! ### A line that fits -/

/-- A call leaves at most what was there and what it read. -/
theorem receive_size_le {t : SerialTransport} {reads : List Chunk} (hfd : 0 ≤ t.fd)
    (hnow : Unclamped t.ringBuf reads) :
    (t.receive reads).2.ringBuf.size ≤ t.ringBuf.size + (bytesOf reads).length := by
  have hdrain : (drain t.ringBuf reads).size = t.ringBuf.size + (bytesOf reads).length := by
    rw [← SerialRingBuffer.contents_length, drain_contents hnow, List.length_append,
      SerialRingBuffer.contents_length]
  rw [← hdrain]
  cases hfw : firstWindow 17 SerialRingBuffer.isAtFrame (drain t.ringBuf reads).contents with
  | none => rw [receive_of_no_window hfd hfw]
  | some p =>
      obtain ⟨raw, ringBuf, -, hrest, hreceive⟩ := receive_of_window hfd hfw
      obtain ⟨i, -, -, -, hdrop⟩ := firstWindow_eq_some hfw
      rw [hreceive, ← SerialRingBuffer.contents_length, hrest, hdrop, List.length_drop,
        SerialRingBuffer.contents_length]
      exact Nat.sub_le _ _

/-- The ring and what is still to be read fit in the ring. -/
structure FitsRing (es : List (SerialEvent ι)) (s : LoopState SerialTransport ι) : Prop where
  connected : 0 ≤ s.transport.fd
  fits : s.transport.ringBuf.size + (bytesRead es).length ≤ 511

omit [DecidableEq ι] in
/-- What fits the ring is a matter of the ring. -/
theorem FitsRing.congr (h : FitsRing es s) (htransport : s'.transport = s.transport) :
    FitsRing es s' := by
  constructor
  · rw [htransport]
    exact h.connected
  · rw [htransport]
    exact h.fits

omit [DecidableEq ι] in
/-- The next round finds room. -/
theorem FitsRing.hasRoom {e : SerialEvent ι} (h : FitsRing (e :: es) s) : HasRoom s e := by
  rintro rounds rfl
  refine unclamped_of_fits ?_
  have hfits := h.fits
  simp only [bytesRead, List.flatMap_cons, LoopEvent.bytes, List.length_append] at hfits
  omega

/-- What is left to read still fits after a step. -/
theorem FitsRing.step {e : SerialEvent ι} (h : FitsRing (e :: es) s) (hothers : OthersTransmit [e])
    (hstep : LoopStep fn m serial s e s') : FitsRing es s' := by
  have hroom := h.hasRoom
  have hsame : e.bytes = [] → FitsRing es s := by
    intro hnil
    have hfits := h.fits
    simp only [bytesRead, List.flatMap_cons, hnil, List.nil_append] at hfits
    exact ⟨h.connected, hfits⟩
  cases e with
  | receive rounds =>
      have hsize := receive_size_le h.connected (hroom rounds rfl)
      have hfits := h.fits
      simp only [bytesRead, List.flatMap_cons, LoopEvent.bytes, List.length_append] at hfits
      have htransport : s'.transport = (s.transport.receive (chunksOf rounds)).2 := by
        cases hstep <;> rfl
      constructor
      · rw [htransport, receive_fd]
        exact h.connected
      · rw [htransport]
        simp only [bytesRead]
        omega
  | transport call =>
      obtain ⟨frame, nbytes, rfl⟩ := hothers call List.mem_cons_self
      cases hstep
      exact (hsame rfl).congr rfl
  | test => cases hstep <;> exact (hsame rfl).congr rfl
  | dispatch => cases hstep <;> exact (hsame rfl).congr rfl
  | motor i u =>
      cases hstep
      exact (hsame rfl).congr rfl

/-- A line that fits the ring fills it at no time. -/
theorem neverFull_of_fits (hothers : OthersTransmit es) (h : FitsRing es s) :
    NeverFull fn m s es := by
  rintro before e after s' rfl hbefore
  induction before generalizing s with
  | nil =>
      obtain rfl := run_nil.mp hbefore
      exact h.hasRoom
  | cons e' before ih =>
      obtain ⟨s₁, hnext, hlater⟩ := run_cons.mp hbefore
      refine ih (fun c hc => hothers c (List.mem_cons_of_mem _ hc)) ?_ hlater
      refine h.step ?_ (next_step hnext)
      intro c hc
      obtain rfl := List.mem_singleton.mp hc
      exact hothers c List.mem_cons_self

/-- The line of a stray byte and the sample motor's feedback. -/
def sampleLine : List (Gap × ExtFrame) :=
  [(⟨[0x41], noHeader_single 0x41⟩,
    ⟨sampleReply .feedback, by decide, by decide, by decide, fun _ _ => by decide +revert⟩)]

/-- A round that reads the chunk. -/
def roundOf (chunk : Chunk) : Round := ⟨.ready ⟨true, false, false, false⟩, .bytes chunk⟩

/-- It is read in two parts; in between another thread transmits.  The motor is listed twice. -/
def lineEvents : List (SerialEvent Unit) :=
  [.test, .receive [roundOf ⟨(wire sampleLine ⟨[], noHeader_nil⟩).take 12, by decide, by decide⟩],
    .test, .transport (.transmit (sampleReply .feedback) 17),
    .receive [roundOf ⟨(wire sampleLine ⟨[], noHeader_nil⟩).drop 12, by decide, by decide⟩],
    .dispatch, .dispatch, .dispatch, .receive []]

theorem line_reaches_motors_sample : ∃ k,
    lineEvents.foldlM ((ReceiveFn.receiveAll [(), ()]).next (fun _ => Motor.sample .priv) serial)
      ((ReceiveFn.receiveAll [(), ()]).start (fun _ => Motor.sample .priv)
        (SerialTransport.initial.connect (some 3)).2) = some k ∧
      k.returned = framesOf sampleLine ∧
      StatusOf (Motor.sample .priv) (framesOf sampleLine ++ framesOf sampleLine)
        (k.guarded ()).status := by
  have hruns : (lineEvents.foldlM
      ((ReceiveFn.receiveAll [(), ()]).next (fun _ => Motor.sample .priv) serial)
      ((ReceiveFn.receiveAll [(), ()]).start (fun _ => Motor.sample .priv)
        (SerialTransport.initial.connect (some 3)).2)).map (fun k => k.control.stepsLeft) =
          some 1 := by decide +kernel
  obtain ⟨k, hrun, hcontrol⟩ := Option.map_eq_some_iff.mp hruns
  have hfd : 0 ≤ (SerialTransport.initial.connect (some 3)).2.fd := by decide
  have hempty : (SerialTransport.initial.connect (some 3)).2.ringBuf.contents = [] :=
    SerialRingBuffer.contents_reset _
  have hothers : OthersTransmit lineEvents := by
    intro c hc
    simp only [lineEvents, List.mem_cons, reduceCtorEq, LoopEvent.transport.injEq,
      List.not_mem_nil, false_or, or_false] at hc
    exact ⟨_, _, hc⟩
  have hread : bytesRead lineEvents = wire sampleLine ⟨[], noHeader_nil⟩ := by decide
  have hfits : FitsRing lineEvents
      ((ReceiveFn.receiveAll [(), ()]).start (fun _ => Motor.sample .priv)
      (SerialTransport.initial.connect (some 3)).2) := by
    refine ⟨hfd, ?_⟩
    rw [hread, ← SerialRingBuffer.contents_length]
    change (SerialTransport.initial.connect (some 3)).2.ringBuf.contents.length + _ ≤ _
    rw [hempty]
    decide
  have hline := line_reaches_motors hfd hempty hothers (neverFull_of_fits hothers hfits)
    (by rw [hread]) hrun
  have hnot : ∀ frame rest, k.control ≠ .dispatch frame rest := by
    intro frame rest hdispatch
    rw [hdispatch] at hcontrol
    cases hcontrol
  obtain ⟨hreturned, hstatus⟩ := hline.2.2 lineEvents.dropLast [] rfl hread hnot
  exact ⟨k, hrun, hreturned, hstatus ()⟩

end Robstride
