import Robstride.Motor.Operations

/-!
# Motor — Reading

`read_parameter_raw` wakes on any parameter reply and looks at the index afterwards.  When the
time of a call is over and one reply with its index was parsed in that time, the call should
have returned the payload of that reply (`ReadsReturn`).  It has, as long as no parameter reply
with another index is parsed in the time of the call, and none at all between the end of that
time and the return if the reply was there (`reads_return`).  Otherwise it need not
(`late_reply_spoils_read`).
-/

namespace Robstride

open Support Support.Pool Support.Pool.Discipline

/-! ### The window of a call -/

/-- The parameter replies with this index that were parsed in time. -/
def Motor.window (m : Motor) (paramId : BitVec 16) (ps : List Parsed) : List Parsed :=
  (m.paramReplies ps).filter fun p => p.inTime && p.index == paramId

/-- Every call whose frame went out and whose time is over returned the payload of the reply
with its index, if there was one in that time and no other. -/
def ReadsReturn (m : Motor) (s : State) : Prop :=
  ∀ i paramId r p, (s.waits i).fn = .readParameterRaw paramId → (s.waits i).tag ≠ none →
    (s.waits i).expired = true → (s.waits i).result = some (.value r) →
    m.window paramId (s.waits i).parsed = [p] → r = some p.payload

/-- The call may see the parameter reply: it asks for its index, or is out of time without a
reply. -/
def CallFits (m : Motor) (reply : Reply) (w : Wait) : Fn → Prop
  | .readParameterRaw paramId =>
      if w.expired then m.window paramId w.parsed = [] else Parsed.index ⟨reply, true⟩ = paramId
  | _ => True

instance (m : Motor) (reply : Reply) (w : Wait) : (fn : Fn) → Decidable (CallFits m reply w fn)
  | .readParameterRaw _ => inferInstanceAs (Decidable (if w.expired then _ else _))
  | .enable | .stop | .clearError | .ping | .setZero | .sendMitControl | .sendCurrentControl
  | .sendVelocityControl | .sendPositionControl | .setupMode | .stopPpMode
  | .writeParameterRaw => .isTrue trivial

/-- A parameter reply is parsed only when every call of `read_parameter_raw` that has not
returned may see it. -/
def RepliesFit (m : Motor) (s : State) (_ : ℕ) : Action → Prop
  | .parse reply => m.protocol.getResponseType reply.frame = .readParam →
      ∀ i < s.next, (s.waits i).result = none → CallFits m reply (s.waits i) (s.waits i).fn
  | _ => True

instance (m : Motor) (s : State) (t : ℕ) : (a : Action) → Decidable (RepliesFit m s t a)
  | .parse _ => inferInstanceAs (Decidable (_ → ∀ i < s.next, (s.waits i).result = none → _))
  | .enter _ | .leave _ _ | .lockCommand | .unlockCommand | .lockMotor | .unlockMotor
  | .isConnected | .prepare _ _ | .startWait _ | .wake | .readParam | .transmit _ _ | .fetchAdd
  | .fetchSub _ | .store _ | .expectedType | .notify | .countUnknown | .undefined => .isTrue trivial

section

variable {m : Motor} {t : ℕ} {s s' : State} {w : Wait} {paramId : BitVec 16}

/-! ### The invariant -/

/-- A parameter reply that the call may read. -/
structure Fits (m : Motor) (paramId : BitVec 16) (w : Wait) (p : Parsed) : Prop where
  mem : p ∈ m.paramReplies w.parsed
  index : p.inTime = true → p.index = paramId
  late : p.inTime = false → m.window paramId w.parsed = []

/-- What a call of `read_parameter_raw` has seen, and what it makes of it. -/
structure ReadInv (m : Motor) (paramId : BitVec 16) (w : Wait) : Prop where
  late : ∀ p ∈ w.parsed, p.inTime = false → w.expired = true
  waiting : w.result = none → ∀ p ∈ m.paramReplies w.parsed, Fits m paramId w p
  returned : ∀ r, w.result = some (.value r) → w.tag ≠ none →
    r = none ∧ w.TimedOut m .readParam ∨
      ∃ p, Fits m paramId w p ∧ r = if p.index = paramId then some p.payload else none

/-- The call has returned what the window asks for. -/
theorem ReadInv.returns (h : ReadInv m paramId w) {r : Option (BitVec 32)} {p : Parsed}
    (hresult : w.result = some (.value r)) (htag : w.tag ≠ none)
    (hwindow : m.window paramId w.parsed = [p]) : r = some p.payload := by
  obtain ⟨hmem, hp⟩ := List.mem_filter.mp (hwindow ▸ List.mem_singleton_self p)
  simp only [Bool.and_eq_true, beq_iff_eq] at hp
  rcases h.returned r hresult htag with ⟨-, -, hlate⟩ | ⟨q, hq, rfl⟩
  · -- The reply was there in time.
    obtain ⟨hparsed, htype⟩ := List.mem_filter.mp hmem
    have hin := hlate p hparsed (by simpa using htype)
    exact absurd (hp.1.symm.trans hin) (by decide)
  · cases hin : q.inTime with
    | false => exact absurd ((hq.late hin).symm.trans hwindow) (by simp)
    | true =>
        have hindex := hq.index hin
        have hself : q ∈ m.window paramId w.parsed :=
          List.mem_filter.mpr ⟨hq.mem, by simp [hin, hindex]⟩
        rw [hwindow, List.mem_singleton] at hself
        rw [if_pos hindex, hself]

theorem window_append (ps qs : List Parsed) :
    m.window paramId (ps ++ qs) = m.window paramId ps ++ m.window paramId qs := by
  simp only [Motor.window, Motor.paramReplies, List.filter_append]

/-- A late frame is in no window. -/
theorem window_late {reply : Reply} : m.window paramId [⟨reply, false⟩] = [] := by
  refine List.filter_eq_nil_iff.mpr fun p hp => ?_
  obtain rfl := List.mem_singleton.mp (List.mem_of_mem_filter hp)
  simp

/-- A change to a call that it does not see. -/
theorem ReadInv.congr {w' : Wait} (h : ReadInv m paramId w) (hparsed : w'.parsed = w.parsed)
    (hexpired : w.expired = true → w'.expired = true) (hresult : w'.result = w.result)
    (htag : w.result ≠ none → w'.tag = w.tag) : ReadInv m paramId w' := by
  have hfits : ∀ p, Fits m paramId w p → Fits m paramId w' p := fun p hp =>
    ⟨hparsed ▸ hp.mem, hp.index, fun hin => hparsed ▸ hp.late hin⟩
  refine ⟨fun p hp hin => hexpired (h.late p (hparsed ▸ hp) hin), fun hopen p hp => ?_,
    fun r hr ht => ?_⟩
  · exact hfits p (h.waiting (hresult ▸ hopen) p (hparsed ▸ hp))
  · rw [hresult] at hr
    rw [htag (by simp [hr])] at ht
    rcases h.returned r hr ht with ⟨hnone, hout, hlate⟩ | ⟨p, hp, hvalue⟩
    · exact .inl ⟨hnone, hexpired hout, fun p hp => hlate p (hparsed ▸ hp)⟩
    · exact .inr ⟨p, hfits p hp, hvalue⟩

theorem Fits.parsed {p : Parsed} {reply : Reply} (h : Fits m paramId w p)
    (hlate : p.inTime = false → w.expired = true) : Fits m paramId
      { w with parsed := w.parsed ++ [⟨reply, !w.expired⟩] } p := by
  refine ⟨?_, h.index, fun hin => ?_⟩
  · simp only [Motor.paramReplies, List.filter_append]
    exact List.mem_append_left _ h.mem
  · rw [window_append, h.late hin, hlate hin, Bool.not_true, window_late, List.append_nil]

theorem Fits.mem_parsed {p : Parsed} (h : Fits m paramId w p) : p ∈ w.parsed :=
  List.mem_of_mem_filter h.mem

/-- A frame that fits is parsed. -/
theorem ReadInv.parsed {reply : Reply} (h : ReadInv m paramId w)
    (hfit : m.protocol.getResponseType reply.frame = .readParam → w.result = none →
      if w.expired then m.window paramId w.parsed = [] else Parsed.index ⟨reply, true⟩ = paramId) :
    ReadInv m paramId { w with parsed := w.parsed ++ [⟨reply, !w.expired⟩] } := by
  refine ⟨fun p hp hin => ?_, fun hresult p hp => ?_, fun r hresult htag => ?_⟩
  · rcases List.mem_append.mp hp with hp | hp
    · exact h.late p hp hin
    · obtain rfl := List.mem_singleton.mp hp
      simpa using hin
  · -- A parameter reply parsed before fits as it did; the new one has to fit if it is one.
    obtain ⟨hp, htype⟩ := List.mem_filter.mp hp
    rcases List.mem_append.mp hp with hp | hp
    · exact (h.waiting hresult p (List.mem_filter.mpr ⟨hp, htype⟩)).parsed (h.late p hp)
    · obtain rfl := List.mem_singleton.mp hp
      have hfit := hfit (by simpa [Motor.typeOf] using htype) hresult
      refine ⟨List.mem_filter.mpr ⟨List.mem_append_right _ hp, htype⟩, fun hin => ?_, fun hin => ?_⟩
      · have he : w.expired = false := by simpa using hin
        simpa [he] using hfit
      · have he : w.expired = true := by simpa using hin
        rw [if_pos he] at hfit
        rw [window_append, hfit, he, Bool.not_true, window_late, List.append_nil]
  · rcases h.returned r hresult htag with ⟨hr, hexpired, hlate⟩ | ⟨p, hp, hr⟩
    · refine .inl ⟨hr, hexpired, fun p hp htype => ?_⟩
      rcases List.mem_append.mp hp with hp | hp
      · exact hlate p hp htype
      · obtain rfl := List.mem_singleton.mp hp
        simp [hexpired]
    · exact .inr ⟨p, hp.parsed (h.late p hp.mem_parsed), hr⟩

/-- The call returns what it read. -/
theorem ReadInv.leave {ret : Ret} (h : ReadInv m paramId w) (hfn : w.fn = .readParameterRaw paramId)
    (hopen : w.result = none) (hret : w.Honest m ret) :
    ReadInv m paramId { w with result := some ret } := by
  refine ⟨h.late, nofun, fun r hr htag => ?_⟩
  obtain rfl := Option.some.inj hr
  refine (hret paramId hfn htag).imp_right fun hread => ?_
  obtain ⟨seen, p, hseen, hlast, hr⟩ := hread
  have hmem : p ∈ m.paramReplies w.parsed :=
    (hseen.filter _).subset (List.mem_of_getLast? hlast)
  obtain ⟨-, hindex, hlate⟩ := h.waiting hopen p hmem
  exact ⟨p, ⟨hmem, hindex, hlate⟩, hr⟩

/-- What one step preserves of one call. -/
theorem ReadInv.step {i next : ℕ} {a : Action} {w' : Wait}
    (h : (s.waits i).fn = .readParameterRaw paramId → ReadInv m paramId (s.waits i))
    (hinv : Inv m s) (hpre : m.pre s t a) (hfit : RepliesFit m s t a)
    (hchange : Change s t i next a w') (hfn : w'.fn = .readParameterRaw paramId) :
    ReadInv m paramId w' := by
  cases hchange with
  | same => exact h hfn
  | prepare fn expected hi => exact ⟨nofun, nofun, nofun⟩
  | transmit fn frame hi =>
      obtain ⟨-, -, hopen⟩ := hinv.owner t i hi
      exact (h hfn).congr rfl id rfl fun hne => absurd hopen hne
  | startWait timeoutMs => exact (h hfn).congr rfl id rfl fun _ => rfl
  | parse reply hi =>
      refine (h hfn).parsed fun htype hresult => ?_
      have hcall := hfit htype i hi hresult
      rwa [show (s.waits i).fn = _ from hfn] at hcall
  | leave fn ret hi =>
      obtain ⟨-, -, hopen⟩ := hinv.owner t i hi
      exact (h hfn).leave hfn hopen (hpre i hi)

/-- What the environment preserves of one call. -/
theorem ReadInv.env {e : BusEvent} {i : ℕ}
    (h : (s.waits i).fn = .readParameterRaw paramId → ReadInv m paramId (s.waits i))
    (henv : s.env e = some s') (hfn : (s'.waits i).fn = .readParameterRaw paramId) :
    ReadInv m paramId (s'.waits i) := by
  rcases env_effect henv with ⟨arrived, received, replies, rfl⟩ | ⟨j, -, rfl⟩
  · exact h hfn
  · by_cases hj : i = j
    · subst hj
      simp only [State.withWait, Function.update_self] at hfn ⊢
      exact (h hfn).congr rfl (fun _ => rfl) rfl fun _ => rfl
    · simp only [State.withWait, Function.update_of_ne hj] at hfn ⊢
      exact h hfn

end

/-! ### The result -/

/-- **`read_parameter_raw` returns the value asked for**, in every run in which the parameter
replies fit the calls that have not returned. -/
theorem reads_return {m : Motor} {es : List (Event m.system)} {k : Config m.system}
    (hmeets : Meets (RepliesFit m) m.initial es) (hrun : m.initial.run es = some k) :
    ReadsReturn m k.state := by
  have hreads : ∀ i paramId, (k.state.waits i).fn = .readParameterRaw paramId →
      ReadInv m paramId (k.state.waits i) := by
    refine run_induction (discipline_kept m) (C := RepliesFit m)
      (P := fun s => ∀ i paramId, (s.waits i).fn = .readParameterRaw paramId →
        ReadInv m paramId (s.waits i)) ?_ ?_ ?_ (initial_ok m) nofun hmeets hrun
    · intro s t a ch r s' hinv hpre hfit hP h _ i paramId hfn
      exact ReadInv.step (hP i paramId) hinv hpre hfit ((perform_effect h).change i) hfn
    · intro s t op s' _ hP h
      obtain ⟨replies, rfl⟩ := call_effect h
      exact hP
    · intro s e s' _ hP h i paramId hfn
      exact ReadInv.env (hP i paramId) h hfn
  exact fun i paramId r p hfn htag _ hresult hwindow =>
    (hreads i paramId hfn).returns hresult htag hwindow

/-- The reply to a read. -/
def paramReply (paramId : BitVec 16) (payload : BitVec 32) : CanFrame :=
  { sampleReply .readParam with data := rsHwPutLe32 (rsHwPutLe16 zeroPayload 0 paramId) 4 payload }

/-- A read whose reply comes in time. -/
def readInTime (paramId : BitVec 16) (payload : BitVec 32) : Schedule .priv :=
  [.call 0 (Op.readParameterRaw paramId)] ++ asking 0 ++
    [.env (BusEvent.deliver (some (paramReply paramId payload)))] ++
    taking 1 7 ⟨paramReply paramId payload, some 0⟩ ++ go 0 7 ++ [.env (BusEvent.expire 0)]

theorem reads_return_in_time : ∃ k,
    (Motor.sample .priv).initial.run (readInTime ParamId.iqRef.id 5) = some k ∧
      (k.state.waits 0).result = some (.value (some 5)) ∧
      ReadsReturn (Motor.sample .priv) k.state := by
  have h : ((Motor.sample .priv).initial.run (readInTime ParamId.iqRef.id 5)).map
      (fun k => (k.state.waits 0).result) = some (some (.value (some 5))) := by decide +kernel
  obtain ⟨k, hrun, hresult⟩ := Option.map_eq_some_iff.mp h
  exact ⟨k, hrun, hresult, reads_return (by decide +kernel) hrun⟩

/-- The reply to a read of `first` comes while a read of `second` waits, whose own reply comes in
time too. -/
def lateRead (first second : BitVec 16) : Schedule .priv :=
  [.call 0 (Op.readParameterRaw first)] ++ asking 0 ++
    [.env (BusEvent.deliver (some (paramReply first 1))), .env (BusEvent.expire 0)] ++ go 0 4 ++
    [.call 0 (Op.readParameterRaw second)] ++ asking 0 ++
    taking 1 7 ⟨paramReply first 1, some 0⟩ ++ go 0 7 ++
    [.env (BusEvent.deliver (some (paramReply second 2)))] ++
    taking 1 7 ⟨paramReply second 2, some 1⟩ ++ [.env (BusEvent.expire 1)]

/-- **A late reply to another read** wakes the call, which finds the wrong index and returns
`nullopt`; its own reply comes in time and is not waited for. -/
theorem late_reply_spoils_read : ¬ ∀ (m : Motor) (es : List (Event m.system))
    (k : Config m.system), m.initial.run es = some k → ReadsReturn m k.state := by
  intro hall
  have h : ((Motor.sample .priv).initial.run
      (lateRead ParamId.runMode.id ParamId.iqRef.id)).map (fun k => k.state.waits 1) =
        some { thread := 0
               fn := .readParameterRaw ParamId.iqRef.id
               expected := .readParam
               tag := some 1
               started := true
               expired := true
               parsed := [⟨⟨paramReply ParamId.runMode.id 1, some 0⟩, true⟩,
                 ⟨⟨paramReply ParamId.iqRef.id 2, some 1⟩, true⟩]
               result := some (.value none) } := by decide +kernel
  obtain ⟨k, hrun, hwait⟩ := Option.map_eq_some_iff.mp h
  have hwindow : (Motor.sample .priv).window ParamId.iqRef.id (k.state.waits 1).parsed =
      [⟨⟨paramReply ParamId.iqRef.id 2, some 1⟩, true⟩] := by
    rw [hwait]
    decide +kernel
  have hvalue := hall _ _ k hrun 1 _ none _ (by rw [hwait]) (by simp [hwait]) (by rw [hwait])
    (by rw [hwait]) hwindow
  cases hvalue

end Robstride
