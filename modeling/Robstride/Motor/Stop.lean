import Robstride.Motor.Operations

/-!
# Motor — Stop

`stop` waits for any `FEEDBACK` frame.  When it returns `SUCCESS`, the motor should have received
its frame, and the frame that completed it should not answer an earlier one (`StopsReceived`).
So it is, as long as what comes while `stop` waits answers the stop frame or a later one, and the
stop frame was not lost (`stops_received`).  The late reply to a command that timed out is enough
to complete a stop whose frame was lost (`late_reply_completes_stop`).
-/

namespace Robstride

open Support Support.Pool Support.Pool.Discipline

/-! ### What completes a request -/

/-- The frame that completes a request: the first of the type it waits for. -/
def Wait.completion (m : Motor) (w : Wait) : Option Parsed :=
  w.parsed.find? fun p => m.typeOf p == w.expected

/-- The motor received the frame of the request, and the reply is not to an earlier one. -/
def State.Received (s : State) (w : Wait) (reply : Reply) : Prop :=
  ∃ n, w.tag = some n ∧ n ∈ s.received ∧ ∃ k, reply.answers = some k ∧ n ≤ k

/-- Every call of `stop` that returned `SUCCESS` stopped the motor. -/
def StopsReceived (m : Motor) (s : State) : Prop :=
  ∀ i, (s.waits i).fn = .stop → (s.waits i).result = some (.result .success) →
    ∃ p, (s.waits i).completion m = some p ∧ s.Received (s.waits i) p.reply

/-- The frame has left the line and the motor has not received it. -/
def State.Lost (s : State) (n : ℕ) : Prop := n < s.arrived ∧ n ∉ s.received

instance (s : State) (n : ℕ) : Decidable (s.Lost n) := inferInstanceAs (Decidable (_ ∧ _))

/-- The frame that completes a stop answers the stop frame or a later one, and the stop frame was
not lost. -/
def StopFits (m : Motor) (s : State) (reply : Reply) (w : Wait) : Prop :=
  w.fn = .stop → w.result = none → w.completion m = none →
    m.protocol.getResponseType reply.frame = w.expected →
      ∃ n ∈ w.tag, ¬ s.Lost n ∧ ∃ k ∈ reply.answers, n ≤ k

instance (m : Motor) (s : State) (reply : Reply) (w : Wait) : Decidable (StopFits m s reply w) :=
  inferInstanceAs (Decidable (_ → _ → _ → _ → ∃ n ∈ w.tag, ¬ s.Lost n ∧ ∃ k ∈ reply.answers, n ≤ k))

/-- A frame is parsed only where it fits every request so far. -/
def RepliesStop (m : Motor) (s : State) (_ : ℕ) : Action → Prop
  | .parse reply => ∀ i < s.next, StopFits m s reply (s.waits i)
  | _ => True

instance (m : Motor) (s : State) (t : ℕ) : (a : Action) → Decidable (RepliesStop m s t a)
  | .parse reply => inferInstanceAs (Decidable (∀ i < s.next, StopFits m s reply (s.waits i)))
  | .enter _ | .leave _ _ | .lockCommand | .unlockCommand | .lockMotor | .unlockMotor
  | .isConnected | .prepare _ _ | .startWait _ | .wake | .readParam | .transmit _ _ | .fetchAdd
  | .fetchSub _ | .store _ | .expectedType | .notify | .countUnknown | .undefined => .isTrue trivial

section

variable {m : Motor} {t : ℕ} {s s' : State} {w w' : Wait}

theorem completion_isSome : (w.completion m).isSome ↔ w.Matched m := by
  simp [Wait.completion, Wait.Matched, List.find?_isSome]

/-- What completed a request still does. -/
theorem completion_parsed {p q : Parsed} (h : w.completion m = some p) :
    Wait.completion m { w with parsed := w.parsed ++ [q] } = some p := by
  simp only [Wait.completion, List.find?_append] at h ⊢
  rw [h, Option.some_or]

/-- A frame completes a request that nothing completed before, if it has the type. -/
theorem completion_of_none {p q : Parsed} (h : w.completion m = none)
    (hp : Wait.completion m { w with parsed := w.parsed ++ [q] } = some p) :
    p = q ∧ m.typeOf q = w.expected := by
  simp only [Wait.completion, List.find?_append] at h hp
  rw [h, Option.none_or, List.find?_singleton] at hp
  split_ifs at hp with hq
  exact ⟨(Option.some.inj hp).symm, by simpa using hq⟩

theorem State.Received.mono {reply : Reply} (h : s.Received w reply) (htag : w'.tag = w.tag)
    (hr : ∀ n ∈ s.received, n ∈ s'.received) : s'.Received w' reply := by
  obtain ⟨n, hn, hmem, hk⟩ := h
  exact ⟨n, htag.trans hn, hr n hmem, hk⟩

/-! ### The invariant -/

/-- What has completed a call of `stop`, before it returns or with success. -/
structure StopInv (m : Motor) (s : State) (w : Wait) : Prop where
  waiting : w.result = none → ∀ p, w.completion m = some p → s.Received w p.reply
  stopped : w.result = some (.result .success) →
    ∃ p, w.completion m = some p ∧ s.Received w p.reply

theorem StopInv.new {fn : Fn} {expected : FrameType} :
    StopInv m s { noWait with thread := t, fn := fn, expected := expected } :=
  ⟨fun _ _ h => by simp [Wait.completion, noWait] at h, nofun⟩

/-- A change to a call that has nothing to do with what completes it. -/
theorem StopInv.congr (h : StopInv m s w) (hparsed : w'.parsed = w.parsed)
    (hexpected : w'.expected = w.expected) (hresult : w'.result = w.result)
    (htag : w'.tag = w.tag) (hr : ∀ n ∈ s.received, n ∈ s'.received) : StopInv m s' w' := by
  have hcompletion : w'.completion m = w.completion m := by
    simp only [Wait.completion, hparsed, hexpected]
  refine ⟨fun hopen p hp => ?_, fun hsuccess => ?_⟩
  · exact (h.waiting (hresult ▸ hopen) p (hcompletion ▸ hp)).mono htag hr
  · obtain ⟨p, hp, hreceived⟩ := h.stopped (hresult ▸ hsuccess)
    exact ⟨p, hcompletion.trans hp, hreceived.mono htag hr⟩

/-- A frame that fits is parsed. -/
theorem StopInv.parsed {reply : Reply} {inTime : Bool} (h : StopInv m s w) (hinv : Inv m s)
    (hfn : w.fn = .stop) (hdelivered : s.Delivered reply) (hfit : StopFits m s reply w) :
    StopInv m s { w with parsed := w.parsed ++ [⟨reply, inTime⟩] } := by
  refine ⟨fun hopen p hp => ?_, fun hsuccess => ?_⟩
  · cases hw : w.completion m with
    | some q =>
        obtain rfl := Option.some.inj ((completion_parsed hw).symm.trans hp)
        exact (h.waiting hopen q hw).mono rfl fun _ => id
    | none =>
        obtain ⟨rfl, htype⟩ := completion_of_none hw hp
        obtain ⟨n, hn, hlost, k, hk, hnk⟩ := hfit hfn hopen hw htype
        -- The frame answered came after the stop frame, so that one has left the line too.
        have harrived : n < s.arrived := hnk.trans_lt (hinv.arrived k (hdelivered k hk))
        have hreceived : n ∈ s.received := not_not.mp fun hn => hlost ⟨harrived, hn⟩
        exact ⟨n, hn, hreceived, k, hk, hnk⟩
  · obtain ⟨p, hp, hreceived⟩ := h.stopped hsuccess
    exact ⟨p, completion_parsed hp, hreceived.mono rfl fun _ => id⟩

/-- A call that returns success was completed. -/
theorem StopInv.leave {ret : Ret} (h : StopInv m s w) (hopen : w.result = none)
    (hret : w.Honest m ret) : StopInv m s { w with result := some ret } := by
  refine ⟨nofun, fun hsuccess => ?_⟩
  obtain rfl := Option.some.inj hsuccess
  obtain ⟨p, hp⟩ := Option.isSome_iff_exists.mp (completion_isSome.mpr (hret rfl))
  exact ⟨p, hp, (h.waiting hopen p hp).mono rfl fun _ => id⟩

/-- A frame goes out for a call that nothing has completed. -/
theorem StopInv.transmit {n : ℕ} (h : StopInv m s w) (hopen : w.result = none)
    (htag : w.tag = none) : StopInv m s { w with tag := some n } := by
  refine ⟨fun _ p hp => ?_, fun hsuccess => nomatch hopen.symm.trans hsuccess⟩
  obtain ⟨k, hk, -⟩ := h.waiting hopen p hp
  exact nomatch htag.symm.trans hk

/-- What one step preserves of one call. -/
theorem StopInv.step {i next : ℕ} {a : Action}
    (h : (s.waits i).fn = .stop → StopInv m s (s.waits i)) (hinv : Inv m s) (hpre : m.pre s t a)
    (hfit : RepliesStop m s t a) (hchange : Change s t i next a w') (hfn : w'.fn = .stop) :
    StopInv m s w' := by
  cases hchange with
  | same => exact h hfn
  | prepare fn expected hi => exact .new
  | transmit fn frame hi =>
      exact (h hfn).transmit (hinv.owner t i hi).2.2 (hpre.2 i hi)
  | startWait timeoutMs => exact (h hfn).congr rfl rfl rfl rfl fun _ => id
  | parse reply hi => exact (h hfn).parsed hinv hfn hpre.2 (hfit i hi)
  | leave fn ret hi => exact (h hfn).leave (hinv.owner t i hi).2.2 (hpre i hi)

/-- What the environment preserves of one call. -/
theorem StopInv.env {e : BusEvent} {i : ℕ}
    (h : (s.waits i).fn = .stop → StopInv m s (s.waits i)) (henv : s.env e = some s')
    (hr : ∀ n ∈ s.received, n ∈ s'.received) (hfn : (s'.waits i).fn = .stop) :
    StopInv m s' (s'.waits i) := by
  rcases env_effect henv with ⟨arrived, received, replies, rfl⟩ | ⟨j, -, rfl⟩
  · exact (h hfn).congr rfl rfl rfl rfl hr
  · by_cases hj : i = j
    · subst hj
      simp only [State.withWait, Function.update_self] at hfn ⊢
      exact (h hfn).congr rfl rfl rfl rfl fun _ => id
    · simp only [State.withWait, Function.update_of_ne hj] at hfn ⊢
      exact (h hfn).congr rfl rfl rfl rfl fun _ => id

end

/-! ### The result -/

/-- **A stop that returns success stopped the motor**, in every run in which the frames that
complete a stop answer the stop frame or a later one, and no stop frame that is completed was
lost. -/
theorem stops_received {m : Motor} {es : List (Event m.system)} {k : Config m.system}
    (hmeets : Meets (RepliesStop m) m.initial es) (hrun : m.initial.run es = some k) :
    StopsReceived m k.state := by
  have hstops : ∀ i, (k.state.waits i).fn = .stop → StopInv m k.state (k.state.waits i) := by
    refine run_induction (discipline_kept m) (C := RepliesStop m)
      (P := fun s => ∀ i, (s.waits i).fn = .stop → StopInv m s (s.waits i)) ?_ ?_ ?_
      (initial_ok m) nofun hmeets hrun
    · intro s t a ch r s' hinv hpre hfit hP h _ i hfn
      refine (StopInv.step (hP i) hinv hpre hfit ((perform_effect h).change i) hfn).congr rfl rfl
        rfl rfl ?_
      rw [perform_received h]
      exact fun _ => id
    · intro s t op s' _ hP h i hfn
      obtain ⟨replies, rfl⟩ := call_effect h
      exact (hP i hfn).congr rfl rfl rfl rfl fun _ => id
    · intro s e s' hinv hP h i hfn
      exact StopInv.env (hP i) h ((env_keeps hinv h).2 0).received hfn
  exact fun i hfn hsuccess => (hstops i hfn).stopped hsuccess

/-- The motor sends nothing but `FEEDBACK` frames, each in answer to a frame it received. -/
def AnswersOnly (m : Motor) : Event m.system → Prop
  | .env (BusEvent.unsolicited _) => False
  | .env (BusEvent.deliver (some frame)) =>
      m.protocol.isFeedbackFrame frame m.motorId = true ∧
        m.protocol.getResponseType frame = .feedback
  | _ => True

/-- A stop that the motor receives and answers. -/
def stopAnswered : Schedule .priv :=
  [.call 0 Op.stop] ++ asking 0 ++ [.env (BusEvent.deliver (some (sampleReply .feedback)))] ++
    taking 1 7 ⟨sampleReply .feedback, some 0⟩ ++ go 0 4

theorem stops_received_answered : ∃ k,
    (Motor.sample .priv).initial.run stopAnswered = some k ∧
      (k.state.waits 0).result = some (.result .success) ∧
      StopsReceived (Motor.sample .priv) k.state := by
  have h : ((Motor.sample .priv).initial.run stopAnswered).map
      (fun k => (k.state.waits 0).result) = some (some (.result .success)) := by decide +kernel
  obtain ⟨k, hrun, hresult⟩ := Option.map_eq_some_iff.mp h
  exact ⟨k, hrun, hresult, stops_received (by decide +kernel) hrun⟩

/-- The motor answers an `enable` that has timed out; the frame of the `stop` after it is lost. -/
def stopLost : Schedule .priv :=
  [.call 0 Op.enable] ++ asking 0 ++
    [.env (BusEvent.deliver (some (sampleReply .feedback))), .env (BusEvent.expire 0)] ++ go 0 4 ++
    [.call 0 Op.stop] ++ asking 0 ++ [.env BusEvent.lose] ++
      taking 1 7 ⟨sampleReply .feedback, some 0⟩ ++ go 0 4

/-- **The late reply to another command** completes a stop whose frame the motor never
received. -/
theorem late_reply_completes_stop : ¬ ∀ (m : Motor) (es : List (Event m.system))
    (k : Config m.system), (∀ e ∈ es, AnswersOnly m e) → m.initial.run es = some k →
      StopsReceived m k.state := by
  intro hall
  have h : ((Motor.sample .priv).initial.run stopLost).map
      (fun k => (k.state.waits 1, k.state.received)) =
        some ({ thread := 0
                fn := .stop
                expected := .feedback
                tag := some 1
                started := true
                expired := false
                parsed := [⟨⟨sampleReply .feedback, some 0⟩, true⟩]
                result := some (.result .success) }, [0]) := by decide +kernel
  obtain ⟨k, hrun, hwait⟩ := Option.map_eq_some_iff.mp h
  obtain ⟨hwait, hreceived⟩ := Prod.mk.inj hwait
  have hmotor : ∀ e ∈ stopLost, AnswersOnly (Motor.sample .priv) e := by
    simp [stopLost, asking, taking, go, up, out, AnswersOnly]
    decide
  obtain ⟨-, -, n, htag, hn, -⟩ := hall _ _ k hmotor hrun 1 (by rw [hwait]) (by rw [hwait])
  obtain rfl : n = 1 := by simpa [hwait] using htag.symm
  exact absurd (hreceived ▸ hn) (by decide)

end Robstride
