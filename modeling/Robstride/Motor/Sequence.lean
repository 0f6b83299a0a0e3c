import Robstride.Motor.Programs
import Robstride.Motor.System

/-!
# Motor — The writes of setup_mode

`setup_mode` writes the run mode and then the parameters of the mode, each only if the one before
was written.  `setupPlan` is that sequence; what a call transmits, under any answers of the
transport, is a first part of it that ends at the first failure (`Attempted`).

The mode is written before it is looked at, so a mode that is no enumerator reaches the motor
before the call is refused: `setup_meets_iff`.
-/

namespace Robstride

open Support Support.Prog

/-! ### The plan -/

/-- The mode is one of the enumerators. -/
def RunMode.isEnumerator : RunMode → Bool
  | .other _ _ => false
  | _ => true

/-- The frame of a parameter write. -/
def Motor.writeFrame (m : Motor) (param : TypedParam) (raw : BitVec 32) : CanFrame :=
  m.protocol.encodeWriteParam m.motorId m.hostId param.id raw

/-- The writes of a mode after `RUN_MODE`, in the order of the limits. -/
def Motor.limitWrites (m : Motor) (mode : RunMode) (limit1 limit2 limit3 : CFloat) :
    List CanFrame :=
  match mode with
  | .operation | .current | .other _ _ => []
  | .speed =>
      [m.writeFrame ParamId.limitCur limit1.raw, m.writeFrame ParamId.accRad limit2.raw]
  | .positionCsp => [m.writeFrame ParamId.limitSpd limit1.raw]
  | .position =>
      [m.writeFrame ParamId.maxVel limit1.raw, m.writeFrame ParamId.accSet limit2.raw] ++
        if ExtRat.le (.fin 0) limit3.val then [m.writeFrame ParamId.decSet limit3.raw] else []

/-- `RUN_MODE = mode`, and the mode's writes. -/
def Motor.setupPlan (m : Motor) (mode : RunMode) (limit1 limit2 limit3 : CFloat) :
    List CanFrame :=
  m.writeFrame ParamId.runMode ((mode.toInt.setWidth 8).setWidth 32) ::
    m.limitWrites mode limit1 limit2 limit3

/-! ### What was transmitted -/

/-- The frame given to `transmit`, with its result. -/
def Action.attempt : (a : Action) → a.Res → Option (CanFrame × Result)
  | .transmit _ frame, r => some (frame, r)
  | _, _ => none

/-- The frames a call gave to `transmit`, with the results. -/
def attempts (tr : CmdTrace) : List (CanFrame × Result) := tr.filterMap fun x => x.1.attempt x.2

/-- The transport was found not connected. -/
def Refused (tr : CmdTrace) : Prop := ⟨.isConnected, false⟩ ∈ tr

/-- The calls of `transmit` are a first part of the plan, up to the first that fails: each but the
last succeeded, and where the plan is not at its end, the last failed or the transport was not
connected. -/
structure FollowsPlan (plan : List CanFrame) (tr : CmdTrace) : Prop where
  isPrefix : (attempts tr).map Prod.fst <+: plan
  succeeded : ∀ x ∈ (attempts tr).dropLast, x.2 = .success
  ends : (attempts tr).map Prod.fst = plan ∨ (∃ x, (attempts tr).getLast? = some x ∧
    x.2 ≠ .success) ∨ Refused tr

/-- The plan was transmitted to its end. -/
def Transmitted (plan : List CanFrame) (tr : CmdTrace) : Prop :=
  attempts tr = plan.map fun frame => (frame, .success)

/-- What `setup_mode` is to do: follow the plan, return `SUCCESS` for the whole of it only, and
refuse a mode that is no enumerator before anything is transmitted. -/
structure MeetsSetup (m : Motor) (mode : RunMode) (limit1 limit2 limit3 : CFloat) (tr : CmdTrace)
    (r : Result) : Prop where
  follows : FollowsPlan (m.setupPlan mode limit1 limit2 limit3) tr
  success_iff : r = .success ↔ Transmitted (m.setupPlan mode limit1 limit2 limit3) tr
  refuses : mode.isEnumerator = false → r = .errInvalidArgument ∧ attempts tr = []

/-! ### Following a plan -/

/-- A plan carried out up to its end (`true`) or to its first failure (`false`). -/
inductive Attempted (refused : Prop) : List CanFrame → List (CanFrame × Result) → Bool → Prop where
  | done : Attempted refused [] [] true
  | sent {frame : CanFrame} {plan : List CanFrame} {sent : List (CanFrame × Result)} {ok : Bool}
      (h : Attempted refused plan sent ok) :
      Attempted refused (frame :: plan) ((frame, .success) :: sent) ok
  | failed (frame : CanFrame) (plan : List CanFrame) {r : Result} (hr : r ≠ .success) :
      Attempted refused (frame :: plan) [(frame, r)] false
  | refused (frame : CanFrame) (plan : List CanFrame) (h : refused) :
      Attempted refused (frame :: plan) [] false

namespace Attempted

variable {refused refused' : Prop} {plan : List CanFrame} {sent : List (CanFrame × Result)}
  {ok : Bool}

theorem mono (h : Attempted refused plan sent ok) (himp : refused → refused') :
    Attempted refused' plan sent ok := by
  induction h with
  | done => exact .done
  | sent _ ih => exact .sent ih
  | failed frame plan hr => exact .failed frame plan hr
  | refused frame plan h => exact .refused frame plan (himp h)

theorem isPrefix (h : Attempted refused plan sent ok) : sent.map Prod.fst <+: plan := by
  induction h with
  | done => exact List.prefix_rfl
  | sent _ ih => exact List.cons_prefix_cons.mpr ⟨rfl, ih⟩
  | failed frame plan _ => exact List.cons_prefix_cons.mpr ⟨rfl, List.nil_prefix⟩
  | refused frame plan _ => exact List.nil_prefix

theorem succeeded (h : Attempted refused plan sent ok) : ∀ x ∈ sent.dropLast, x.2 = .success := by
  induction h with
  | done | failed _ _ _ | refused _ _ _ => exact fun x hx => absurd hx List.not_mem_nil
  | @sent frame plan sent ok _ ih =>
      cases sent with
      | nil => exact fun x hx => absurd hx List.not_mem_nil
      | cons y ys =>
          intro x hx
          rcases List.mem_cons.mp hx with rfl | hx
          · rfl
          · exact ih x hx

theorem ends (h : Attempted refused plan sent ok) : sent.map Prod.fst = plan ∨
    (∃ x, sent.getLast? = some x ∧ x.2 ≠ .success) ∨ refused := by
  induction h with
  | done => exact .inl rfl
  | failed frame plan hr => exact .inr (.inl ⟨_, rfl, hr⟩)
  | refused frame plan h => exact .inr (.inr h)
  | @sent frame plan sent ok _ ih =>
      rcases ih with heq | ⟨x, hlast, hx⟩ | href
      · exact .inl (congrArg (frame :: ·) heq)
      · exact .inr (.inl ⟨x, by rw [List.getLast?_cons, hlast]; rfl, hx⟩)
      · exact .inr (.inr href)

/-- The plan came to its end exactly when all of it was transmitted. -/
theorem ok_iff (h : Attempted refused plan sent ok) :
    ok = true ↔ sent = plan.map fun frame => (frame, .success) := by
  induction h with
  | done => exact iff_of_true rfl rfl
  | sent _ ih => simpa using ih
  | failed frame plan hr =>
      refine iff_of_false Bool.false_ne_true fun heq => hr ?_
      exact (Prod.mk.inj (List.cons.inj heq).1).2
  | refused frame plan h => exact iff_of_false Bool.false_ne_true fun heq => by cases heq

end Attempted

theorem Attempted.follows {plan : List CanFrame} {tr : CmdTrace} {ok : Bool}
    (h : Attempted (Refused tr) plan (attempts tr) ok) : FollowsPlan plan tr :=
  ⟨h.isPrefix, h.succeeded, h.ends⟩

/-! ### One write -/

section

variable {m : Motor} {param : TypedParam} {raw : BitVec 32} {tr tr' : CmdTrace} {w : Result}

theorem attempts_append (tr tr' : CmdTrace) : attempts (tr ++ tr') = attempts tr ++ attempts tr' :=
  List.filterMap_append ..

theorem Refused.left (h : Refused tr) (tr' : CmdTrace) : Refused (tr ++ tr') :=
  List.mem_append_left tr' h

theorem Refused.right (h : Refused tr') (tr : CmdTrace) : Refused (tr ++ tr') :=
  List.mem_append_right tr h

/-- A write transmits its frame and returns what the transport does, or finds it not connected. -/
theorem writeParameter_trace (h : After (m.writeParameter param raw) tr (.ret w)) :
    attempts tr = [(m.writeFrame param raw, w)] ∨
      attempts tr = [] ∧ Refused tr ∧ w ≠ .success := by
  obtain ⟨tr₁, rfl, hbody⟩ := recorded_trace h
  obtain ⟨tr₂, rfl, hcore⟩ := withCommandMutex_trace hbody
  obtain ⟨tr₃, connected, tr₄, rfl, hconnected, hsend⟩ := after_bind_ret hcore
  obtain rfl := after_perform hconnected
  cases connected with
  | true =>
      obtain rfl := after_perform hsend
      exact .inl rfl
  | false =>
      obtain ⟨rfl, rfl⟩ := after_ret hsend
      exact .inr ⟨rfl, by simp [Refused], by decide⟩

/-- A write, and after a success the rest of the plan. -/
theorem Attempted.write {refused : Prop} {plan : List CanFrame} {sent : List (CanFrame × Result)}
    {ok : Bool} (h : After (m.writeParameter param raw) tr (.ret w)) (href : Refused tr → refused)
    (hrest : w = .success → Attempted refused plan sent ok)
    (hfail : w ≠ .success → sent = [] ∧ ok = false) :
    Attempted refused (m.writeFrame param raw :: plan) (attempts tr ++ sent) ok := by
  rcases writeParameter_trace h with hsent | ⟨hnone, hrefused, hw⟩
  · rw [hsent]
    by_cases hw : w = .success
    · subst hw
      exact .sent (hrest rfl)
    · obtain ⟨rfl, rfl⟩ := hfail hw
      exact .failed _ _ hw
  · obtain ⟨rfl, rfl⟩ := hfail hw
    rw [hnone]
    exact .refused _ _ (href hrefused)

/-- The last write of a plan. -/
theorem Attempted.last {refused : Prop} (h : After (m.writeParameter param raw) tr (.ret w))
    (href : Refused tr → refused) :
    Attempted refused [m.writeFrame param raw] (attempts tr) (decide (w = .success)) := by
  have hwrite : Attempted refused [m.writeFrame param raw] (attempts tr ++ [])
      (decide (w = .success)) := by
    refine Attempted.write h href (fun hw => ?_) fun hw => ⟨rfl, decide_eq_false hw⟩
    rw [decide_eq_true hw]
    exact .done
  rwa [List.append_nil] at hwrite

/-- A write that is made only after a success. -/
theorem Attempted.after {refused : Prop} {plan : List CanFrame} {ok : Bool} {v : Result}
    {param' : TypedParam} {raw' : BitVec 32}
    (h : After (m.writeParameter param raw) tr (.ret w))
    (h' : After (if w = .success then m.writeParameter param' raw' else pure w) tr' (.ret v))
    {tr'' : CmdTrace} (href : Refused (tr ++ (tr' ++ tr'')) → refused)
    (hrest : v = .success → Attempted refused plan (attempts tr'') ok)
    (hfail : v ≠ .success → attempts tr'' = [] ∧ ok = false) :
    Attempted refused (m.writeFrame param raw :: m.writeFrame param' raw' :: plan)
      (attempts (tr ++ (tr' ++ tr''))) ok := by
  rw [attempts_append, attempts_append]
  refine Attempted.write h (fun hr => href (hr.left _)) (fun hw => ?_) fun hw => ?_
  · rw [if_pos hw] at h'
    exact Attempted.write h' (fun hr => href ((hr.left _).right _)) hrest hfail
  · rw [if_neg hw] at h'
    obtain ⟨rfl, rfl⟩ := after_ret h'
    exact hfail hw

end

/-! ### setup_mode -/

/-- A failed write becomes a refusal, a success stays one. -/
theorem nack_success (w : Result) :
    decide ((if w = .success then Result.success else .errNack) = .success) =
      decide (w = .success) := by
  by_cases hw : w = .success
  · rw [if_pos hw, hw]
  · rw [if_neg hw, decide_eq_false hw]
    rfl

/-- The outcome of `setup_mode` for a mode that is an enumerator. -/
theorem setupMode_attempted {m : Motor} {mode : RunMode} {limit1 limit2 limit3 : CFloat}
    {tr : CmdTrace} {r : Result} (henum : mode.isEnumerator = true)
    (h : After (m.setupMode mode limit1 limit2 limit3) tr (.ret r)) :
    Attempted (Refused tr) (m.setupPlan mode limit1 limit2 limit3) (attempts tr)
      (decide (r = .success)) := by
  obtain ⟨tr₁, rfl, hbody⟩ := recorded_trace h
  have hrefused : Refused tr₁ →
      Refused (⟨.enter .setupMode, ()⟩ :: tr₁ ++ [⟨.leave .setupMode (.result r), ()⟩]) :=
    fun hr => List.mem_append_left _ (List.mem_cons_of_mem _ hr)
  have hattempts : attempts
      (⟨.enter .setupMode, ()⟩ :: tr₁ ++ [⟨.leave .setupMode (.result r), ()⟩]) =
        attempts tr₁ := by
    rw [attempts_append]
    exact List.append_nil _
  rw [hattempts]
  refine Attempted.mono ?_ hrefused
  obtain ⟨tr₂, written, tr₃, rfl, hwrite, hrest⟩ := after_bind_ret hbody
  rw [attempts_append]
  refine Attempted.write hwrite (fun hr => hr.left _) (fun hw => ?_) fun hw => ?_
  · rw [if_pos hw] at hrest
    cases mode with
    | other _ _ => cases henum
    | operation | current =>
        obtain ⟨rfl, rfl⟩ := after_ret hrest
        exact .done
    | speed =>
        obtain ⟨tr₄, ok, tr₅, rfl, hcur, hrest⟩ := after_bind_ret hrest
        obtain ⟨tr₆, ok', tr₇, rfl, hacc, hret⟩ := after_bind_ret hrest
        obtain ⟨rfl, rfl⟩ := after_ret hret
        rw [nack_success]
        refine Attempted.after hcur hacc (fun hr => hr.right _) (fun hok => ?_) fun hok => ?_
        · rw [decide_eq_true hok]
          exact .done
        · exact ⟨rfl, decide_eq_false hok⟩
    | positionCsp =>
        obtain ⟨tr₄, ok, tr₅, rfl, hspd, hret⟩ := after_bind_ret hrest
        obtain ⟨rfl, rfl⟩ := after_ret hret
        rw [nack_success, List.append_nil]
        exact Attempted.last hspd fun hr => hr.right _
    | position =>
        obtain ⟨tr₄, ok, tr₅, rfl, hvel, hrest⟩ := after_bind_ret hrest
        obtain ⟨tr₆, ok', tr₇, rfl, hacc, hrest⟩ := after_bind_ret hrest
        obtain ⟨tr₈, ok'', tr₉, rfl, hdec, hret⟩ := after_bind_ret hrest
        obtain ⟨rfl, rfl⟩ := after_ret hret
        rw [nack_success, List.append_nil]
        refine Attempted.after hvel hacc (fun hr => hr.right _) (fun hok => ?_) fun hok => ?_
        · by_cases hlimit : ExtRat.le (.fin 0) limit3.val = true
          · rw [if_pos ⟨hok, hlimit⟩] at hdec
            rw [if_pos hlimit]
            exact Attempted.last hdec fun hr => ((hr.right _).right _).right _
          · rw [if_neg fun h => hlimit h.2] at hdec
            obtain ⟨rfl, rfl⟩ := after_ret hdec
            rw [if_neg hlimit, decide_eq_true hok]
            exact .done
        · rw [if_neg fun h => hok h.1] at hdec
          obtain ⟨rfl, rfl⟩ := after_ret hdec
          exact ⟨rfl, decide_eq_false hok⟩
  · rw [if_neg hw] at hrest
    obtain ⟨rfl, rfl⟩ := after_ret hrest
    exact ⟨rfl, rfl⟩

/-- No call refuses its mode with nothing transmitted: the mode is written first. -/
theorem setupMode_writes_first {m : Motor} {mode : RunMode} {limit1 limit2 limit3 : CFloat}
    {tr : CmdTrace} {r : Result} (h : After (m.setupMode mode limit1 limit2 limit3) tr (.ret r)) :
    ¬ (r = .errInvalidArgument ∧ attempts tr = []) := by
  obtain ⟨tr₁, rfl, hbody⟩ := recorded_trace h
  obtain ⟨tr₂, written, tr₃, rfl, hwrite, hrest⟩ := after_bind_ret hbody
  rintro ⟨rfl, hnone⟩
  by_cases hw : written = .success
  · subst hw
    rcases writeParameter_trace hwrite with hsent | ⟨-, -, hne⟩
    · rw [attempts_append, List.append_eq_nil_iff] at hnone
      have hnone' : attempts (tr₂ ++ tr₃) = [] := hnone.1
      rw [attempts_append, hsent] at hnone'
      cases hnone'
    · exact hne rfl
  · rw [if_neg hw] at hrest
    obtain ⟨-, hret⟩ := after_ret hrest
    cases hret

/-- **A call of setup_mode**, under any answers of the transport, does what it is to do exactly
when the mode is an enumerator. -/
theorem setup_meets_iff {m : Motor} {mode : RunMode} {limit1 limit2 limit3 : CFloat}
    {tr : CmdTrace} {r : Result} (h : After (m.setupMode mode limit1 limit2 limit3) tr (.ret r)) :
    MeetsSetup m mode limit1 limit2 limit3 tr r ↔ mode.isEnumerator = true := by
  constructor
  · intro hmeets
    by_contra henum
    have hother := Bool.eq_false_of_not_eq_true henum
    exact setupMode_writes_first h (hmeets.refuses hother)
  · intro henum
    have hattempted := setupMode_attempted henum h
    refine ⟨hattempted.follows, ?_, fun hother => ?_⟩
    · rw [Transmitted, ← hattempted.ok_iff, decide_eq_true_iff]
    · rw [henum] at hother
      cases hother

/-- The trace of a call whose mode is written and which makes no further write. -/
def modeWritten (m : Motor) (mode : RunMode) (r : Result) : CmdTrace :=
  [⟨.enter .setupMode, ()⟩, ⟨.enter .writeParameterRaw, ()⟩, ⟨.lockCommand, ()⟩,
    ⟨.isConnected, true⟩,
    ⟨.transmit .writeParameterRaw
      (m.writeFrame ParamId.runMode ((mode.toInt.setWidth 8).setWidth 32)), .success⟩,
    ⟨.unlockCommand, ()⟩, ⟨.leave .writeParameterRaw (.result .success), ()⟩,
    ⟨.leave .setupMode (.result r), ()⟩]

theorem modeWritten_current (m : Motor) (limit : CFloat) :
    After (m.setupMode .current limit limit limit) (modeWritten m .current .success)
      (.ret .success) :=
  .cons (.cons (.cons (.cons (.cons (.cons (.cons (.cons (.nil _))))))))

theorem setup_meets_iff_current :
    MeetsSetup (Motor.sample .priv) .current ⟨0, .fin 0⟩ ⟨0, .fin 0⟩ ⟨0, .fin 0⟩
      (modeWritten (Motor.sample .priv) .current .success) .success ↔
        RunMode.current.isEnumerator = true :=
  setup_meets_iff (modeWritten_current (Motor.sample .priv) ⟨0, .fin 0⟩)

/-- **A mode of 4** is written to the motor before the call returns `ERR_INVALID_ARGUMENT`. -/
theorem invalid_mode_written : ¬ ∀ (m : Motor) (mode : RunMode) (limit1 limit2 limit3 : CFloat)
    (tr : CmdTrace) (r : Result), After (m.setupMode mode limit1 limit2 limit3) tr (.ret r) →
      MeetsSetup m mode limit1 limit2 limit3 tr r := by
  intro hall
  have hforeign : (4 : BitVec 32) ∉ [0, 1, 2, 3, 5] := by decide
  have hafter : After ((Motor.sample .priv).setupMode (.other 4 hforeign) ⟨0, .fin 0⟩ ⟨0, .fin 0⟩
      ⟨0, .fin 0⟩) (modeWritten (Motor.sample .priv) (.other 4 hforeign) .errInvalidArgument)
        (.ret .errInvalidArgument) :=
    .cons (.cons (.cons (.cons (.cons (.cons (.cons (.cons (.nil _))))))))
  have hmeets := hall _ _ _ _ _ _ _ hafter
  exact setupMode_writes_first hafter (hmeets.refuses rfl)

end Robstride
