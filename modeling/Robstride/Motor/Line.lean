import Robstride.Motor.Transmits
import Robstride.Motor.Progress
import Robstride.Serial.Torn

/-!
# Motor — From the motors to the line

Motors under the private protocol on one serial transport, called from any number of threads.  The
transport writes one frame after another, and a `write` may be cut short.

The frames whose `transmit` returned `SUCCESS` are, for each motor whose id is its own, the ones it
counts as sent, in its order; and a peer that reads the whole line into an empty ring that never
overflows gets these frames and no others, unless a word opens in the bytes that a short `write`
left (`line_delivers`).
-/

namespace Robstride

open Support Support.Pool SerialTransport SerialRingBuffer

variable {ι : Type} [DecidableEq ι] {motors : ι → Motor}

namespace Fleet

/-! ### The writes of a run -/

/-- A `write`: the frame, and what its `transmit` returned. -/
def write? : Label (system motors) → Option (CanFrame × Result)
  | .act _ (.on _ (.transmit _ frame)) r => some (frame, r)
  | _ => none

/-- The writes of a log, in their order. -/
def writes (ls : List (Label (system motors))) : List (CanFrame × Result) := ls.filterMap write?

/-- A write is a transmit under `tx_mutex_`. -/
theorem write?_eq_some {l : Label (system motors)} {w : CanFrame × Result}
    (h : write? l = some w) :
    ∃ t i fn, l = .act t (FleetAction.on i (Action.transmit fn w.1)) w.2 := by
  cases l with
  | call t op => cases h
  | env e => cases h
  | act t a r =>
      cases a with
      | on i a =>
          cases a with
          | transmit fn frame =>
              obtain rfl := Option.some.inj h
              exact ⟨t, i, fn, rfl⟩
          | _ => cases h
      | _ => cases h

/-- The frames whose `transmit` returned `SUCCESS`. -/
def sentFrames (ls : List (Label (system motors))) : List CanFrame :=
  ((writes ls).filter fun w => w.2 = .success).map Prod.fst

/-- The counts that `write` returned are `ns`: 17, less, or a negative number. -/
def Counts (sender : SerialTransport) (ls : List (Label (system motors))) (ns : List ℤ) : Prop :=
  List.Forall₂ (fun w n => n ≤ 17 ∧ (sender.transmit w.1 n).map Prod.fst = some w.2) (writes ls) ns

/-- What motor `i` counts as sent at the label. -/
def sentAt (i : ι) : Label (system motors) → List (Fn × CanFrame)
  | .act _ (.on j a) r => if j = i then a.sentBy r else []
  | _ => []

section Steps

variable {c c' : Config (system motors)} {ls : List (Label (system motors))}

/-- A refused transmit is no success. -/
theorem refuse_fails {t : ℕ} {ch : Choice} {s s' : FleetState ι} {i : ι} {fn : Fn}
    {frame : CanFrame} {r : Result}
    (h : perform motors t (.refuse i fn frame) ch s = some (r, s')) : r ≠ .success := by
  cases ch with
  | go => cases h
  | connected b => cases h
  | transmitted v =>
      simp only [perform] at h
      split_ifs at h with hv
      simp only [Motor.perform, if_neg hv, Option.map_some] at h
      obtain ⟨rfl, -⟩ := Prod.mk.inj (Option.some.inj h)
      exact hv

/-- One motor's state is set, the others' are as they were. -/
theorem FleetState.set_motors (s : FleetState ι) (i j : ι) (own : State) :
    (s.set j own).motors i = if j = i then own else s.motors i := by
  unfold FleetState.set
  by_cases h : j = i
  · subst h
    rw [if_pos rfl]
    exact Function.update_self j own s.motors
  · rw [if_neg h]
    exact Function.update_of_ne (Ne.symm h) own s.motors

/-- One step adds to each motor's record what it sends there. -/
theorem step_sent {l : Label (system motors)} (hstep : Step c l c') (i : ι) :
    (c'.state.motors i).sent = (c.state.motors i).sent ++ sentAt i l := by
  cases hstep with
  | call hidle hs =>
      obtain rfl := Option.some.inj hs
      exact (List.append_nil _).symm
  | @act t a k r s ch ht hs =>
      cases a with
      | on j a =>
          obtain ⟨⟨q, own⟩, hown, hpair⟩ := Option.map_eq_some_iff.mp hs
          obtain ⟨rfl, rfl⟩ := Prod.mk.inj hpair
          have hsent := perform_sent hown
          simp only [FleetState.set_motors, sentAt]
          by_cases h : j = i
          · subst h
            rw [if_pos rfl, if_pos rfl, hsent]
          · rw [if_neg h, if_neg h, List.append_nil]
      | refuse j fn frame =>
          obtain ⟨ch', own, hown, rfl⟩ := perform_refuse hs
          have hnone : Action.sentBy (.transmit fn frame) r = [] := if_neg (refuse_fails hs)
          have hsent := perform_sent hown
          rw [hnone, List.append_nil] at hsent
          simp only [FleetState.set_motors, sentAt, List.append_nil]
          by_cases h : j = i
          · subst h
            rw [if_pos rfl, hsent]
          · rw [if_neg h]
      | accepts =>
          obtain rfl := perform_accepts hs
          exact (List.append_nil _).symm
      | lockTx =>
          have hlock : perform motors t .lockTx ch c.state = some ((), s) := hs
          obtain ⟨-, rfl⟩ := perform_lockTx hlock
          exact (List.append_nil _).symm
      | unlockTx =>
          have hunlock : perform motors t .unlockTx ch c.state = some ((), s) := hs
          obtain ⟨-, rfl⟩ := perform_unlockTx hunlock
          exact (List.append_nil _).symm
  | @env e s hs =>
      obtain ⟨own, hown, rfl⟩ := Option.map_eq_some_iff.mp hs
      have hsent : own.sent = (c.state.motors e.1).sent := by
        rcases env_effect hown with ⟨arrived, received, replies, rfl⟩ | ⟨j, -, rfl⟩ <;> rfl
      simp only [FleetState.set_motors, sentAt, List.append_nil]
      by_cases h : e.1 = i
      · subst h
        rw [if_pos rfl, hsent]
      · rw [if_neg h]

/-- A motor's record is what it sent in the run. -/
theorem path_sent (h : Path Any (initial motors) ls c) (i : ι) :
    (c.state.motors i).sent = ls.flatMap (sentAt i) := by
  induction h with
  | nil => rfl
  | snoc _ hstep _ ih =>
      rw [step_sent hstep i, ih, List.flatMap_append, List.flatMap_singleton]

end Steps

/-! ### Whose frame it is -/

/-- The low id byte of the frame is the motor. -/
def names (motorId : Byte) (frame : CanFrame) : Bool := frame.canId.setWidth 8 = motorId

/-- The frames sent in a log, part after part. -/
theorem sentFrames_append (ls₁ ls₂ : List (Label (system motors))) :
    sentFrames (ls₁ ++ ls₂) = sentFrames ls₁ ++ sentFrames ls₂ := by
  simp only [sentFrames, writes, List.filterMap_append, List.filter_append, List.map_append]

section Names

variable {i : ι}

/-- A frame sent names the one motor that counts it. -/
theorem sentAt_names (hpriv : ∀ j, (motors j).protocolType = .priv)
    (hid : ∀ j, (motors j).motorId = (motors i).motorId → j = i) {l : Label (system motors)}
    (hl : ∀ t a r, l = .act t a r → Hands motors a) :
    (sentFrames [l]).filter (names (motors i).motorId) = (sentAt i l).map Prod.snd := by
  cases l with
  | call t op => rfl
  | env e => rfl
  | act t a r =>
      cases a with
      | on j a =>
          cases a with
          | transmit fn frame =>
              have hcommands : (motors j).Commands frame := hl t _ r rfl
              unfold Motor.Commands at hcommands
              rw [hpriv j] at hcommands
              have hmotor := hcommands.motor
              have hnames : names (motors i).motorId frame = decide (j = i) := by
                unfold names
                rw [hmotor]
                exact decide_eq_decide.mpr ⟨hid j, fun h => h ▸ rfl⟩
              by_cases hr : r = .success
              · have hframes : sentFrames [.act t (.on j (.transmit fn frame)) r] = [frame] := by
                  subst hr
                  rfl
                have hby : Action.sentBy (.transmit fn frame) r = [(fn, frame)] := if_pos hr
                rw [hframes, sentAt, hby]
                by_cases hj : j = i
                · simp [hnames, hj]
                · simp [hnames, hj]
              · have hframes : sentFrames [.act t (.on j (.transmit fn frame)) r] = [] := by
                  simp [sentFrames, writes, write?, hr]
                have hby : Action.sentBy (.transmit fn frame) r = [] := if_neg hr
                rw [hframes, sentAt, hby, ite_self]
                rfl
          | _ =>
              simp only [sentAt, Action.sentBy, ite_self]
              rfl
      | _ => rfl

/-- **A motor's record** is, among the frames sent, those that name it. -/
theorem sentFrames_names (hpriv : ∀ j, (motors j).protocolType = .priv)
    (hid : ∀ j, (motors j).motorId = (motors i).motorId → j = i)
    {ls : List (Label (system motors))} (hls : ∀ t a r, .act t a r ∈ ls → Hands motors a) :
    (sentFrames ls).filter (names (motors i).motorId) = (ls.flatMap (sentAt i)).map Prod.snd := by
  induction ls with
  | nil => rfl
  | cons l ls ih =>
      have hhead := sentAt_names hpriv hid fun t a r heq => hls t a r (heq ▸ List.mem_cons_self)
      have htail := ih fun t a r hmem => hls t a r (List.mem_cons_of_mem l hmem)
      rw [← List.singleton_append, sentFrames_append, List.filter_append, hhead, htail,
        List.flatMap_append, List.map_append, List.flatMap_singleton]

end Names

/-! ### The line -/

/-- What the motors hand over is extended and without junk. -/
theorem exists_extFrame {motorId : Byte} {frame : CanFrame}
    (h : ProtocolPrivate.Commands motorId frame) : ∃ f : ExtFrame, f.frame = frame := by
  have hdlc : frame.canDlc.toNat = 8 := congrArg BitVec.toNat h.dlc
  refine ⟨⟨frame, h.eff, h.plain, hdlc.le, fun i hi => ?_⟩, rfl⟩
  rw [hdlc] at hi
  exact absurd i.isLt (not_lt.mpr hi)

/-- The writes of a run as the line has them: each frame with the count that its `write`
returned. -/
def LaidDown (ls : List (Label (system motors))) (ns : List ℤ) (xs : List Transmission) : Prop :=
  xs.map (fun x => (x.sent.frame, x.nbytes)) = ((writes ls).map Prod.fst).zip ns

/-- Writes with the byte counts the line took are transmissions of the peer's line. -/
theorem exists_transmissions {sender : SerialTransport} {ws : List (CanFrame × Result)}
    {ns : List ℤ} (hws : ∀ w ∈ ws, ∃ f : ExtFrame, f.frame = w.1)
    (h : List.Forall₂ (fun w n => n ≤ 17 ∧ (sender.transmit w.1 n).map Prod.fst = some w.2) ws ns) :
    ∃ xs : List Transmission,
      xs.map (fun x => (x.sent.frame, x.nbytes)) = (ws.map Prod.fst).zip ns := by
  induction h with
  | nil => exact ⟨[], rfl⟩
  | @cons w n ws ns hw _ ih =>
      obtain ⟨xs, hline⟩ := ih fun w hmem => hws w (List.mem_cons_of_mem _ hmem)
      obtain ⟨f, hf⟩ := hws w List.mem_cons_self
      refine ⟨⟨f.sendable, n, hw.1⟩ :: xs, ?_⟩
      rw [List.map_cons, hline, List.map_cons, List.zip_cons_cons]
      exact congrArg (fun frame => (frame, n) :: _) hf

/-- A write was whole where its `transmit` returned `SUCCESS`. -/
theorem whole_eq {sender : SerialTransport} (hfd : 0 ≤ sender.fd) {x : Transmission} {r : Result}
    (h : (sender.transmit x.sent.frame x.nbytes).map Prod.fst = some r) :
    x.whole = decide (r = .success) := by
  have hcall : (x.call sender).map Prod.fst = some r := h
  rw [← succeeded_eq hfd, Transmission.succeeded, hcall]
  exact decide_eq_decide.mpr ⟨fun h => Option.some.inj h, fun h => congrArg some h⟩

/-- What a write carries of an extended frame without junk is the frame. -/
theorem carried_of_frame {x : Sendable} {f : ExtFrame} (h : x.frame = f.frame) :
    x.carried = f.frame := by
  have hsame : x = f.sendable := by
    obtain ⟨frame, eff, dlc⟩ := x
    cases h
    rfl
  rw [hsame, f.carried_eq]

/-- The whole writes carry the frames whose `transmit` returned `SUCCESS`. -/
theorem whole_carried {sender : SerialTransport} (hfd : 0 ≤ sender.fd)
    {ws : List (CanFrame × Result)} {ns : List ℤ} (hws : ∀ w ∈ ws, ∃ f : ExtFrame, f.frame = w.1)
    (h : List.Forall₂ (fun w n => n ≤ 17 ∧ (sender.transmit w.1 n).map Prod.fst = some w.2) ws ns)
    {xs : List Transmission}
    (hxs : xs.map (fun x => (x.sent.frame, x.nbytes)) = (ws.map Prod.fst).zip ns) :
    (xs.filter Transmission.whole).map (fun x => x.sent.carried) =
      (ws.filter fun w => w.2 = .success).map Prod.fst := by
  induction h generalizing xs with
  | nil =>
      obtain rfl := List.map_eq_nil_iff.mp hxs
      rfl
  | @cons w n ws ns hw _ ih =>
      rw [List.map_cons, List.zip_cons_cons] at hxs
      obtain ⟨x, xs, rfl, hx, hrest⟩ := List.map_eq_cons_iff.mp hxs
      obtain ⟨hframe, hn⟩ := Prod.mk.inj hx
      obtain ⟨f, hf⟩ := hws w List.mem_cons_self
      have hlater := ih (fun w hmem => hws w (List.mem_cons_of_mem _ hmem)) hrest
      have hwhole : x.whole = decide (w.2 = .success) := by
        refine whole_eq hfd ?_
        rw [hframe, hn]
        exact hw.2
      have hcarried : x.sent.carried = w.1 := (carried_of_frame (hframe.trans hf.symm)).trans hf
      rw [List.filter_cons, List.filter_cons, hwhole]
      split_ifs
      · rw [List.map_cons, List.map_cons, hlater, hcarried]
      · exact hlater

/-- **From the motors to the line**: for each motor whose id no other has, the frames that
`transmit` returned `SUCCESS` for are those it counts as sent, in its order.  A peer that begins with
an empty ring, reads all bytes of the line and never lets its ring overflow gets them and no others,
where no word opens in what a short `write` left. -/
theorem line_delivers {sender : SerialTransport} {c : Config (system motors)}
    {ls : List (Label (system motors))} {ns : List ℤ}
    (hpriv : ∀ i, (motors i).protocolType = .priv) (hfd : 0 ≤ sender.fd)
    (h : Path Any (initial motors) ls c) (hcounts : Counts sender ls ns) :
    (∃ xs, LaidDown ls ns xs) ∧
      (∀ xs, LaidDown ls ns xs → NoTornWord xs →
        ∀ (t : SerialTransport) (calls : List (List Chunk)), 0 ≤ t.fd → t.ringBuf.contents = [] →
          t.NeverClamped calls → calls.flatMap bytesOf = lineOf sender xs →
            t.Yields calls (sentFrames ls)) ∧
      ∀ i, (∀ j, (motors j).motorId = (motors i).motorId → j = i) →
        (sentFrames ls).filter (names (motors i).motorId) =
          (c.state.motors i).sent.map Prod.snd := by
  have hacts : ∀ t a r, .act t a r ∈ ls → Hands motors a :=
    h.all fun _ _ op _ => hands_body motors op
  have hws : ∀ w ∈ writes ls, ∃ f : ExtFrame, f.frame = w.1 := by
    intro w hw
    obtain ⟨l, hl, hwrite⟩ := List.mem_filterMap.mp hw
    obtain ⟨t, i, fn, rfl⟩ := write?_eq_some hwrite
    have hcommands : (motors i).Commands w.1 := hacts t (.on i (.transmit fn w.1)) w.2 hl
    unfold Motor.Commands at hcommands
    rw [hpriv i] at hcommands
    exact exists_extFrame hcommands
  refine ⟨exists_transmissions hws hcounts, ?_, fun i hid => ?_⟩
  · intro xs hxs htorn t calls ht hempty hclamp hread
    have hstream : lineOf sender xs = stream xs := congrArg (List.map Prod.fst) (labelled_eq hfd xs)
    rw [yields_iff ht hempty hclamp, hread, hstream, scanned_of_noTornWord htorn,
      whole_carried hfd hws hcounts hxs]
    rfl
  · rw [path_sent h i]
    exact sentFrames_names hpriv hid hacts

/-- Two motors under the private protocol. -/
def twins (second : Bool) : Motor where
  motorId := if second then 2 else 1
  hostId := 0
  profile := ⟨.fin 17, .fin 50⟩
  protocolType := .priv
  overrunLimit := 1

/-- Each is told to stop, by a thread of its own; the first `write` is cut short. -/
def stopTwins : List (Event (system twins)) :=
  [.call 0 (.call false .stop), .call 1 (.call true .stop), .step 1 .go, .step 0 .go, .step 0 .go,
    .step 1 .go, .step 0 (.connected true), .step 1 (.connected true), .step 1 .go, .step 1 .go,
    .step 1 .go, .step 0 .go, .step 0 .go, .step 0 .go, .step 0 (.connected true),
    .step 1 (.connected true), .step 1 .go, .step 1 (.transmitted .errWriteFailed), .step 1 .go,
    .step 0 .go, .step 0 (.transmitted .success), .step 0 .go]

/-- A `stop` of a motor, as a frame for the line. -/
def stopFrame (motorId : Byte) : Sendable where
  frame := Protocol.priv.strategy.encodeStop motorId 0
  eff := by revert motorId; decide +kernel
  dlc_le := le_refl 8

/-- Three bytes of the one, all of the other. -/
def stopWrites : List Transmission := [⟨stopFrame 2, 3, by decide⟩, ⟨stopFrame 1, 17, by decide⟩]

/-- No word opens in the three bytes: the frame behind them has no terminator where it would end. -/
theorem noTornWord_stopWrites : NoTornWord stopWrites := by
  rintro i b ⟨hbound, hword⟩ hb
  have hlen : (stream stopWrites).length = 20 := by decide +kernel
  have hi : i < 4 := by omega
  interval_cases i
  · exact absurd hword (by decide +kernel)
  · exact absurd hword (by decide +kernel)
  · exact absurd hword (by decide +kernel)
  · have hlast : (written stopWrites)[3]? = some (0x41, true) := by decide +kernel
    rw [hlast] at hb
    rw [← Option.some.inj hb]

/-- All twenty bytes in one read. -/
def stopChunk : Chunk where
  bytes := stream stopWrites
  pos := by decide +kernel
  le := by decide +kernel

theorem line_delivers_twins : ∃ ls c, Path Any (initial twins) ls c ∧
    LaidDown ls [3, 17] stopWrites ∧
      (SerialTransport.initial.connect (some 4)).2.Yields [[stopChunk]]
        [Protocol.priv.strategy.encodeStop 1 0] ∧
      (c.state.motors false).sent.map Prod.snd = [Protocol.priv.strategy.encodeStop 1 0] := by
  have hruns : ((initial twins).log Any stopTwins).map (fun run => writes run.1) =
      some [(Protocol.priv.strategy.encodeStop 2 0, .errWriteFailed),
        (Protocol.priv.strategy.encodeStop 1 0, .success)] := rfl
  obtain ⟨⟨ls, c⟩, hlog, hwrites⟩ := Option.map_eq_some_iff.mp hruns
  have hwrites : writes ls = _ := hwrites
  have hsent : sentFrames ls = [Protocol.priv.strategy.encodeStop 1 0] := by
    rw [sentFrames, hwrites]
    rfl
  have hcounts : Counts (SerialTransport.initial.connect (some 3)).2 ls [3, 17] := by
    rw [Counts, hwrites]
    exact .cons ⟨by decide, by decide⟩ (.cons ⟨by decide, by decide⟩ .nil)
  have hlaid : LaidDown ls [3, 17] stopWrites := by
    rw [LaidDown, hwrites]
    rfl
  -- The peer's ring is empty, and has room for the line.
  have hempty : (SerialTransport.initial.connect (some 4)).2.ringBuf.contents = [] :=
    contents_reset _
  have hroom : (SerialTransport.initial.connect (some 4)).2.NeverClamped [[stopChunk]] := by
    refine neverClamped_of_fits (by decide) ?_
    rw [← contents_length, hempty]
    decide +kernel
  have hread : [[stopChunk]].flatMap bytesOf =
      lineOf (SerialTransport.initial.connect (some 3)).2 stopWrites := by
    decide +kernel
  obtain ⟨-, hyields, hmotors⟩ :=
    line_delivers (fun _ => rfl) (by decide) (log_path hlog) hcounts
  have hpeer := hyields stopWrites hlaid noTornWord_stopWrites _ [[stopChunk]] (by decide) hempty
    hroom hread
  have hcounted := hmotors false (by decide)
  rw [hsent] at hpeer hcounted
  exact ⟨ls, c, log_path hlog, hlaid, hpeer, hcounted.symm⟩

end Fleet

end Robstride
