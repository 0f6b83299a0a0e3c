import Robstride.Motor.Telemetry
import Robstride.Support.Machine
import Robstride.Transport.Gone

/-!
# Motor — Receive loops

The loops of `Sdk/Receive.lean` step by step, as the thread they run on: between any two steps
other threads call the transport and the motors.  A motor is what its mutex guards, and changes by
whole sections, as `guarded_linearizes` allows.

One thread receives, and hands over what it gets; the others may do anything else.  Whatever they
do, a motor has had each frame that `receive` returned as often as the list names it, in their order
(`loop_hands_over`).  A loop goes on while the transport is connected, and
is left a few steps after it is not (`loops_leave`).
-/

namespace Robstride

open Support Support.Machine

/-! ### The loops -/

/-- The functions that call `receive` until they are done, with the motors they hand frames to. -/
inductive ReceiveFn (ι : Type) where
  | receive (self : ι)
  | processSharedSocket (motors : List ι)
  | receiveAll (motors : List ι)

/-- Where the control of a loop is. -/
inductive Control (ι : Type) where
  /-- At the call of `is_connected`. -/
  | isConnected
  /-- At the call of `receive`. -/
  | receive
  /-- At the call of `process_frame` for the first of the motors that have not had the frame. -/
  | dispatch (frame : CanFrame) (rest : List ι)
  | left

namespace ReceiveFn

variable {ι : Type}

/-- The motors that the function hands frames to. -/
def motors : ReceiveFn ι → List ι
  | receive self => [self]
  | processSharedSocket motors => motors
  | receiveAll motors => motors

/-- Where a call begins. -/
def enter : ReceiveFn ι → Control ι
  | receive _ => .isConnected
  | processSharedSocket motors => if motors.isEmpty then .left else .receive
  | receiveAll motors => if motors.isEmpty then .left else .isConnected

/-- Where a `receive` without a frame leads. -/
def afterError : ReceiveFn ι → Control ι
  | receive _ => .isConnected
  | processSharedSocket _ => .left
  | receiveAll _ => .isConnected

/-- Where the control goes when every motor has had the frame. -/
def afterFrame : ReceiveFn ι → Control ι
  | receive _ => .isConnected
  | processSharedSocket _ => .receive
  | receiveAll _ => .receive

end ReceiveFn

/-- The loop, its transport and its motors.  `returned` and `updates` are history: what `receive`
returned to the loop, and what changed each motor. -/
structure LoopState (σ ι : Type) where
  control : Control ι
  transport : σ
  guarded : ι → Guarded
  returned : List CanFrame
  updates : ι → List Update

/-- A step of the loop, `receive` with what the system answers; or a call of another thread on the
transport, or one of its sections on a motor. -/
inductive LoopEvent (ω τ α ι : Type) where
  | test
  | receive (answer : α)
  | dispatch
  | transport (call : ITransport.Call ω τ α)
  | motor (i : ι) (update : Update)

section Loops

variable {σ ω τ α ι : Type} [DecidableEq ι]

namespace LoopState

/-- An update of one motor's guarded fields, and the record of it. -/
def update (m : ι → Motor) (s : LoopState σ ι) (i : ι) (u : Update) : LoopState σ ι :=
  { s with
    guarded := Function.update s.guarded i ((m i).update (s.guarded i) u)
    updates := Function.update s.updates i (s.updates i ++ [u]) }

end LoopState

/-- What an event leaves, where it is enabled.  No other thread hands over frames: only one may call
`receive`, as the comment there says. -/
def ReceiveFn.next (fn : ReceiveFn ι) (m : ι → Motor) (T : ITransport σ ω τ α)
    (s : LoopState σ ι) : LoopEvent ω τ α ι → Option (LoopState σ ι)
  | .test =>
      match s.control with
      | .isConnected =>
          some { s with control := if T.isConnected s.transport then .receive else .left }
      | _ => none
  | .receive answer =>
      match s.control with
      | .receive =>
          match (T.receive s.transport answer).1 with
          | .ok frame =>
              some { s with
                control := .dispatch frame fn.motors
                transport := (T.receive s.transport answer).2
                returned := s.returned ++ [frame] }
          | .error _ =>
              some { s with
                control := fn.afterError
                transport := (T.receive s.transport answer).2 }
      | _ => none
  | .dispatch =>
      match s.control with
      | .dispatch frame (i :: rest) =>
          some { s.update m i (.frame frame) with control := .dispatch frame rest }
      | .dispatch _ [] => some { s with control := fn.afterFrame }
      | _ => none
  | .transport call => some { s with transport := T.call s.transport call }
  | .motor i u => if u.frame?.isNone then some (s.update m i u) else none

/-- The call begins, the motors as constructed. -/
def ReceiveFn.start (fn : ReceiveFn ι) (m : ι → Motor) (t : σ) : LoopState σ ι where
  control := fn.enter
  transport := t
  guarded i := (m i).initialVars.guarded
  returned := []
  updates _ := []

/-! ### Steps -/

variable {fn : ReceiveFn ι} {m : ι → Motor} {T : ITransport σ ω τ α} {s s' k : LoopState σ ι}
  {es : List (LoopEvent ω τ α ι)} {t : σ}

/-- What one event can do. -/
inductive LoopStep (fn : ReceiveFn ι) (m : ι → Motor) (T : ITransport σ ω τ α)
    (s : LoopState σ ι) : LoopEvent ω τ α ι → LoopState σ ι → Prop where
  | enter (hat : s.control = .isConnected) (hup : T.isConnected s.transport = true) :
      LoopStep fn m T s .test { s with control := .receive }
  | leave (hat : s.control = .isConnected) (hdown : T.isConnected s.transport = false) :
      LoopStep fn m T s .test { s with control := .left }
  | frame {answer : α} {frame : CanFrame} (hat : s.control = .receive)
      (hok : (T.receive s.transport answer).1 = .ok frame) :
      LoopStep fn m T s (.receive answer) { s with
        control := .dispatch frame fn.motors
        transport := (T.receive s.transport answer).2
        returned := s.returned ++ [frame] }
  | error {answer : α} {e : Result} (hat : s.control = .receive)
      (herror : (T.receive s.transport answer).1 = .error e) :
      LoopStep fn m T s (.receive answer) { s with
        control := fn.afterError
        transport := (T.receive s.transport answer).2 }
  | hand {frame : CanFrame} {i : ι} {rest : List ι} (hat : s.control = .dispatch frame (i :: rest)) :
      LoopStep fn m T s .dispatch
        { s.update m i (.frame frame) with control := .dispatch frame rest }
  | handed {frame : CanFrame} (hat : s.control = .dispatch frame []) :
      LoopStep fn m T s .dispatch { s with control := fn.afterFrame }
  | transport (call : ITransport.Call ω τ α) :
      LoopStep fn m T s (.transport call) { s with transport := T.call s.transport call }
  | motor {i : ι} {u : Update} (hother : u.frame? = none) :
      LoopStep fn m T s (.motor i u) (s.update m i u)

/-- An event that can happen is a step of the loop. -/
theorem next_step {e : LoopEvent ω τ α ι} (h : fn.next m T s e = some s') :
    LoopStep fn m T s e s' := by
  obtain ⟨control, transport, guarded, returned, updates⟩ := s
  cases e with
  | test =>
      cases control with
      | isConnected =>
          obtain rfl := Option.some.inj h
          by_cases hup : T.isConnected transport = true
          · simp only [if_pos hup]
            exact .enter rfl hup
          · simp only [if_neg hup]
            exact .leave rfl (Bool.eq_false_of_not_eq_true hup)
      | receive | dispatch _ _ | left => cases h
  | receive answer =>
      cases control with
      | receive =>
          simp only [ReceiveFn.next] at h
          split at h
          next frame hok =>
            obtain rfl := Option.some.inj h
            exact .frame rfl hok
          next e herror =>
            obtain rfl := Option.some.inj h
            exact .error rfl herror
      | isConnected | dispatch _ _ | left => cases h
  | dispatch =>
      cases control with
      | dispatch frame rest =>
          cases rest with
          | nil =>
              obtain rfl := Option.some.inj h
              exact .handed rfl
          | cons i rest =>
              obtain rfl := Option.some.inj h
              exact .hand rfl
      | isConnected | receive | left => cases h
  | transport call =>
      obtain rfl := Option.some.inj h
      exact .transport call
  | motor i u =>
      simp only [ReceiveFn.next] at h
      split_ifs at h with hother
      obtain rfl := Option.some.inj h
      exact .motor (Option.isNone_iff_eq_none.mp hother)

/-! ### The loops alone -/

variable (fn) in
/-- One frame after another is handed over. -/
theorem dispatch_run (frame : CanFrame) (rest : List ι) (hat : s.control = .dispatch frame rest) :
    ∃ (es : List (LoopEvent ω τ α ι)) (k : LoopState σ ι), es.foldlM (fn.next m T) s = some k ∧
      k.control = fn.afterFrame ∧ k.transport = s.transport ∧ k.returned = s.returned := by
  induction rest generalizing s with
  | nil =>
      refine ⟨[.dispatch], { s with control := fn.afterFrame }, ?_, rfl, rfl, rfl⟩
      refine run_cons.mpr ⟨_, ?_, run_nil.mpr rfl⟩
      simp only [ReceiveFn.next, hat]
  | cons i rest ih =>
      obtain ⟨es, k, hrun, hcontrol, htransport, hreturned⟩ :=
        ih (s := { s.update m i (.frame frame) with control := .dispatch frame rest }) rfl
      refine ⟨.dispatch :: es, k, run_cons.mpr ⟨_, ?_, hrun⟩, hcontrol, htransport, hreturned⟩
      simp only [ReceiveFn.next, hat]

variable (fn) in
/-- A frame is received and handed over. -/
theorem receive_ok_run (hat : s.control = .receive) {answer : α} {frame : CanFrame}
    (hok : (T.receive s.transport answer).1 = .ok frame) :
    ∃ (es : List (LoopEvent ω τ α ι)) (k : LoopState σ ι), es.foldlM (fn.next m T) s = some k ∧
      k.control = fn.afterFrame ∧ k.transport = (T.receive s.transport answer).2 ∧
        k.returned = s.returned ++ [frame] := by
  obtain ⟨es, k, hrun, hk⟩ := dispatch_run fn (m := m) (T := T) frame fn.motors
    (s := { s with
      control := .dispatch frame fn.motors
      transport := (T.receive s.transport answer).2
      returned := s.returned ++ [frame] }) rfl
  refine ⟨.receive answer :: es, k, run_cons.mpr ⟨_, ?_, hrun⟩, hk⟩
  simp only [ReceiveFn.next, hat, hok]

variable (fn) in
/-- A call of `receive` that returns no frame, and where the loop goes on from there. -/
theorem receive_error_run (hat : s.control = .receive) {answer : α} {e : Result}
    (herror : (T.receive s.transport answer).1 = .error e) :
    ∃ (es : List (LoopEvent ω τ α ι)) (k : LoopState σ ι), es.foldlM (fn.next m T) s = some k ∧
      k.control = fn.afterError ∧ k.transport = (T.receive s.transport answer).2 ∧
        k.returned = s.returned := by
  refine ⟨[.receive answer], { s with
    control := fn.afterError
    transport := (T.receive s.transport answer).2 }, run_cons.mpr ⟨_, ?_, run_nil.mpr rfl⟩,
    rfl, rfl, rfl⟩
  simp only [ReceiveFn.next, hat, herror]

/-- The step at `is_connected`. -/
theorem test_run (hat : s.control = .isConnected) :
    fn.next m T s .test = some { s with
      control := if T.isConnected s.transport then .receive else .left } := by
  simp only [ReceiveFn.next, hat]

/-- The test holds. -/
theorem enter_run (hat : s.control = .isConnected) (hup : T.isConnected s.transport = true) :
    ∃ (es : List (LoopEvent ω τ α ι)) (k : LoopState σ ι), es.foldlM (fn.next m T) s = some k ∧
      k.control = .receive ∧ k.transport = s.transport ∧ k.returned = s.returned :=
  ⟨[.test], _, run_cons.mpr ⟨_, test_run hat, run_nil.mpr rfl⟩, if_pos hup, rfl, rfl⟩

/-- A run that ends in what a list of answers gives. -/
def Ends (fn : ReceiveFn ι) (m : ι → Motor) (T : ITransport σ ω τ α) (s : LoopState σ ι)
    (out : List CanFrame × σ) : Prop :=
  ∃ (es : List (LoopEvent ω τ α ι)) (k : LoopState σ ι), es.foldlM (fn.next m T) s = some k ∧
    k.control = .left ∧ k.returned = s.returned ++ out.1 ∧ k.transport = out.2

/-- Frames returned before the end come first. -/
theorem Ends.after (frames : List CanFrame) {out : List CanFrame × σ}
    (hrun : es.foldlM (fn.next m T) s = some s') (hreturned : s'.returned = s.returned ++ frames)
    (h : Ends fn m T s' out) : Ends fn m T s (frames ++ out.1, out.2) := by
  obtain ⟨es', k, hrun', hleft, hk, htransport⟩ := h
  refine ⟨es ++ es', k, run_append.mpr ⟨s', hrun, hrun'⟩, hleft, ?_, htransport⟩
  rw [hk, hreturned, List.append_assoc]

/-- The test fails. -/
theorem ends_of_disconnected (hat : s.control = .isConnected)
    (hdown : T.isConnected s.transport = false) : Ends fn m T s ([], s.transport) := by
  refine ⟨[.test], _, run_cons.mpr ⟨_, test_run hat, run_nil.mpr rfl⟩, ?_, ?_, rfl⟩
  · rw [hdown]
    rfl
  · exact (List.append_nil _).symm

/-- The loop of `receive_all` with its inner loop, undisturbed, is the one of `Sdk/Receive.lean`. -/
theorem receiveAllLoop_run {motors : List ι} (shared : Bool)
    (hat : s.control = if shared then .receive else .isConnected) {answers : List α}
    {out : List CanFrame × σ} (h : T.receiveAllLoop shared s.transport answers = some out) :
    Ends (.receiveAll motors) m T s out := by
  induction answers generalizing s shared out with
  | nil =>
      rw [ITransport.receiveAllLoop] at h
      split_ifs at h with hgo
      obtain rfl := Option.some.inj h
      obtain ⟨hshared, hdown⟩ := Bool.or_eq_false_iff.mp (Bool.eq_false_of_not_eq_true hgo)
      rw [hshared] at hat
      exact ends_of_disconnected hat hdown
  | cons answer answers ih =>
      rw [ITransport.receiveAllLoop] at h
      split_ifs at h with hgo
      · -- The control comes to `receive`, through the test or at once.
        obtain ⟨es, s₁, hrun, hreceive, htransport, hreturned⟩ :
            ∃ (es : List (LoopEvent ω τ α ι)) (s₁ : LoopState σ ι),
              es.foldlM ((ReceiveFn.receiveAll motors).next m T) s = some s₁ ∧
                s₁.control = .receive ∧ s₁.transport = s.transport ∧
                  s₁.returned = s.returned := by
          cases shared with
          | true => exact ⟨[], s, run_nil.mpr rfl, hat, rfl, rfl⟩
          | false => exact enter_run hat hgo
        rw [← htransport] at h
        cases hresult : (T.receive s₁.transport answer).1 with
        | ok frame =>
            rw [hresult] at h
            obtain ⟨out', hlater, rfl⟩ := Option.map_eq_some_iff.mp h
            obtain ⟨es', s₂, hrun', hcontrol, htransport', hreturned'⟩ :=
              receive_ok_run (.receiveAll motors) (m := m) hreceive hresult
            rw [← htransport'] at hlater
            refine Ends.after [frame] (run_append.mpr ⟨s₁, hrun, hrun'⟩) ?_
              (ih true hcontrol hlater)
            rw [hreturned', hreturned]
        | error e =>
            rw [hresult] at h
            obtain ⟨es', s₂, hrun', hcontrol, htransport', hreturned'⟩ :=
              receive_error_run (.receiveAll motors) (m := m) hreceive hresult
            rw [← htransport'] at h
            refine Ends.after [] (run_append.mpr ⟨s₁, hrun, hrun'⟩) ?_
              (ih false hcontrol h)
            rw [hreturned', hreturned, List.append_nil]
      · obtain rfl := Option.some.inj h
        obtain ⟨hshared, hdown⟩ := Bool.or_eq_false_iff.mp (Bool.eq_false_of_not_eq_true hgo)
        rw [hshared] at hat
        exact ends_of_disconnected hat hdown

/-- So is the loop of `Motor::receive`. -/
theorem motorReceive_run {self : ι} (hat : s.control = .isConnected) {answers : List α}
    {out : List CanFrame × σ} (h : T.motorReceive s.transport answers = some out) :
    Ends (.receive self) m T s out := by
  induction answers generalizing s out with
  | nil =>
      rw [ITransport.motorReceive] at h
      split_ifs at h with hup
      obtain rfl := Option.some.inj h
      exact ends_of_disconnected hat (Bool.eq_false_of_not_eq_true hup)
  | cons answer answers ih =>
      rw [ITransport.motorReceive] at h
      split_ifs at h with hup
      · obtain ⟨es, s₁, hrun, hreceive, htransport, hreturned⟩ :
            ∃ (es : List (LoopEvent ω τ α ι)) (s₁ : LoopState σ ι),
              es.foldlM ((ReceiveFn.receive self).next m T) s = some s₁ ∧
                s₁.control = .receive ∧ s₁.transport = s.transport ∧
                  s₁.returned = s.returned := enter_run hat hup
        rw [← htransport] at h
        cases hresult : (T.receive s₁.transport answer).1 with
        | ok frame =>
            rw [hresult] at h
            obtain ⟨out', hlater, rfl⟩ := Option.map_eq_some_iff.mp h
            obtain ⟨es', s₂, hrun', hcontrol, htransport', hreturned'⟩ :=
              receive_ok_run (.receive self) (m := m) hreceive hresult
            rw [← htransport'] at hlater
            refine Ends.after [frame] (run_append.mpr ⟨s₁, hrun, hrun'⟩) ?_
              (ih hcontrol hlater)
            rw [hreturned', hreturned]
        | error e =>
            rw [hresult] at h
            obtain ⟨es', s₂, hrun', hcontrol, htransport', hreturned'⟩ :=
              receive_error_run (.receive self) (m := m) hreceive hresult
            rw [← htransport'] at h
            refine Ends.after [] (run_append.mpr ⟨s₁, hrun, hrun'⟩) ?_
              (ih hcontrol h)
            rw [hreturned', hreturned, List.append_nil]
      · obtain rfl := Option.some.inj h
        exact ends_of_disconnected hat (Bool.eq_false_of_not_eq_true hup)

/-- `receive_all`, undisturbed. -/
theorem receiveAll_run {motors : List ι} {answers : List α} {out : List CanFrame × σ}
    (h : T.receiveAll motors.length t answers = some out) :
    Ends (.receiveAll motors) m T ((ReceiveFn.receiveAll motors).start m t) out := by
  unfold ITransport.receiveAll at h
  cases motors with
  | nil =>
      obtain rfl := Option.some.inj h
      exact ⟨[], _, run_nil.mpr rfl, rfl, rfl, rfl⟩
  | cons i motors =>
      rw [if_neg (by simp)] at h
      exact receiveAllLoop_run false rfl h

/-! ### What the motors get -/

/-- The frame in hand, as often as the motor has yet to get it. -/
def Control.pending : Control ι → ι → List CanFrame
  | .dispatch frame rest, i => List.replicate (rest.count i) frame
  | _, _ => []

/-- Before `receive` no motor has a frame to come. -/
@[simp] theorem pending_receive (i : ι) : (Control.receive : Control ι).pending i = [] := rfl

/-- Each frame as often as the list names the motor. -/
def copies (motors : List ι) (frames : List CanFrame) (i : ι) : List CanFrame :=
  frames.flatMap fun frame => List.replicate (motors.count i) frame

/-- One more frame, as often as the motor is listed. -/
theorem copies_snoc (motors : List ι) (frames : List CanFrame) (frame : CanFrame) (i : ι) :
    copies motors (frames ++ [frame]) i =
      copies motors frames i ++ List.replicate (motors.count i) frame := by
  simp [copies]

/-- A motor listed once gets each frame once. -/
theorem copies_of_nodup {motors : List ι} (hnodup : motors.Nodup) {i : ι} (hi : i ∈ motors)
    (frames : List CanFrame) : copies motors frames i = frames := by
  have hone : motors.count i = 1 := List.count_eq_one_of_mem hnodup hi
  simp [copies, hone]

/-- The fields are what the history made of them, and every motor has had its share of the frames
that were returned, but for the one in hand. -/
structure HandsOver (fn : ReceiveFn ι) (m : ι → Motor) (s : LoopState σ ι) : Prop where
  guarded : ∀ i, s.guarded i = (m i).guardedAfter (s.updates i)
  frames : ∀ i, (s.updates i).filterMap Update.frame? ++ s.control.pending i =
    copies fn.motors s.returned i

/-- After an error no motor has a frame to come. -/
theorem afterError_pending (fn : ReceiveFn ι) (i : ι) : fn.afterError.pending i = [] := by
  cases fn <;> rfl

/-- Nor has one after a frame that every motor had. -/
theorem afterFrame_pending (fn : ReceiveFn ι) (i : ι) : fn.afterFrame.pending i = [] := by
  cases fn <;> rfl

/-- Nor has one where the function begins. -/
theorem enter_pending (fn : ReceiveFn ι) (i : ι) : fn.enter.pending i = [] := by
  cases fn with
  | receive self => rfl
  | processSharedSocket motors | receiveAll motors =>
      simp only [ReceiveFn.enter]
      split_ifs <;> rfl

/-- The motor's fields after one more section. -/
theorem update_guarded (h : ∀ i, s.guarded i = (m i).guardedAfter (s.updates i)) (i : ι)
    (u : Update) (j : ι) : (s.update m i u).guarded j =
      (m j).guardedAfter ((s.update m i u).updates j) := by
  simp only [LoopState.update]
  by_cases hj : j = i
  · subst hj
    rw [Function.update_self, Function.update_self, guardedAfter_snoc, h]
  · rw [Function.update_of_ne hj, Function.update_of_ne hj, h]

/-- **One step** of the loop or of another thread keeps what was handed over in line with what was
returned. -/
theorem HandsOver.step {e : LoopEvent ω τ α ι} (h : HandsOver fn m s)
    (hstep : LoopStep fn m T s e s') : HandsOver fn m s' := by
  obtain ⟨hguarded, hframes⟩ := h
  cases hstep with
  | enter hat _ | leave hat _ =>
      refine ⟨hguarded, fun i => ?_⟩
      have hi := hframes i
      rw [hat] at hi
      exact hi
  | @frame answer frame hat _ =>
      refine ⟨hguarded, fun i => ?_⟩
      have hi := hframes i
      rw [hat, pending_receive, List.append_nil] at hi
      rw [copies_snoc, ← hi]
      rfl
  | error hat _ =>
      refine ⟨hguarded, fun i => ?_⟩
      have hi := hframes i
      rw [hat] at hi
      rwa [afterError_pending]
  | @hand frame i rest hat =>
      refine ⟨update_guarded hguarded i _, fun j => ?_⟩
      have hj := hframes j
      rw [hat] at hj
      refine Eq.trans ?_ hj
      simp only [LoopState.update, Control.pending]
      by_cases hij : j = i
      · -- One copy less to hand over, and one more handed.
        subst hij
        rw [Function.update_self, List.filterMap_append, List.count_cons_self,
          List.replicate_succ]
        simp [Update.frame?]
      · rw [Function.update_of_ne hij, List.count_cons_of_ne (Ne.symm hij)]
  | handed hat =>
      refine ⟨hguarded, fun i => ?_⟩
      have hi := hframes i
      rw [hat] at hi
      rwa [afterFrame_pending]
  | transport call => exact ⟨hguarded, hframes⟩
  | @motor i u hother =>
      refine ⟨update_guarded hguarded i u, fun j => ?_⟩
      have hj := hframes j
      refine Eq.trans ?_ hj
      simp only [LoopState.update]
      by_cases hij : j = i
      · subst hij
        rw [Function.update_self, List.filterMap_append]
        simp [hother]
      · rw [Function.update_of_ne hij]

/-- Nothing is returned and nothing handed over at first. -/
theorem handsOver_start (fn : ReceiveFn ι) (m : ι → Motor) (t : σ) :
    HandsOver fn m (fn.start m t) where
  guarded _ := rfl
  frames i := by
    simp only [ReceiveFn.start, enter_pending]
    rfl

/-- **Every run** hands over what it returned. -/
theorem handsOver_run (hrun : es.foldlM (fn.next m T) (fn.start m t) = some k) :
    HandsOver fn m k :=
  run_induction (fun _ _ _ h hnext => h.step (next_step hnext)) (handsOver_start fn m t) hrun

/-- The status of a motor, but for its flag, is what these frames leave. -/
def StatusOf (m : Motor) (frames : List CanFrame) (status : MotorStatus) : Prop :=
  ∃ connected, StatusAfter m frames (status.setConnected connected)

/-- A status made by updates is that of the frames among them. -/
theorem statusOf_updates (m : Motor) (updates : List Update) :
    StatusOf m (updates.filterMap Update.frame?) (m.guardedAfter updates).status := by
  refine ⟨(m.after (updates.filterMap Update.frame?)).vars.status.isConnected, ?_⟩
  rw [status_of_updates, setConnected_setConnected, setConnected_self]
  exact after_status m _

/-- A motor's status is that of the frames it was handed. -/
theorem HandsOver.statusOf (h : HandsOver fn m s) (i : ι) :
    StatusOf (m i) ((s.updates i).filterMap Update.frame?) (s.guarded i).status := by
  rw [h.guarded]
  exact statusOf_updates (m i) (s.updates i)

/-- A motor that has had its share of every frame shows it. -/
theorem HandsOver.statusOf_copies (h : HandsOver fn m s) {i : ι}
    (hpending : s.control.pending i = []) :
    StatusOf (m i) (copies fn.motors s.returned i) (s.guarded i).status := by
  have hframes := h.frames i
  rw [hpending, List.append_nil] at hframes
  rw [← hframes]
  exact h.statusOf i

/-- A motor listed once shows the frames returned. -/
theorem HandsOver.statusOf_returned (h : HandsOver fn m s) {i : ι} (hnodup : fn.motors.Nodup)
    (hi : i ∈ fn.motors) (hpending : s.control.pending i = []) :
    StatusOf (m i) s.returned (s.guarded i).status := by
  have hcopies := h.statusOf_copies hpending
  rwa [copies_of_nodup hnodup hi] at hcopies

/-- **Every motor gets** each frame that `receive` returned as often as the list names it, in their
order, whatever other threads do meanwhile but for handing over frames of their own: the frame in
hand apart, its status shows them all and no others. -/
theorem loop_hands_over (hrun : es.foldlM (fn.next m T) (fn.start m t) = some k) :
    (∀ i, ((k.updates i).filterMap Update.frame?) ++ k.control.pending i =
      copies fn.motors k.returned i) ∧
    (∀ i, StatusOf (m i) ((k.updates i).filterMap Update.frame?) (k.guarded i).status) ∧
    ∀ i, fn.motors.Nodup → i ∈ fn.motors → k.control.pending i = [] →
      StatusOf (m i) k.returned (k.guarded i).status := by
  have h := handsOver_run hrun
  exact ⟨h.frames, h.statusOf, fun i hnodup hi hpending => h.statusOf_returned hnodup hi hpending⟩

/-! ### The end of a loop -/

/-- The event is a step of the loop. -/
def LoopEvent.own : LoopEvent ω τ α ι → Bool
  | test | receive _ | dispatch => true
  | transport _ | motor _ _ => false

/-- What the event calls of the transport, beside `is_connected`. -/
def LoopEvent.calls : LoopEvent ω τ α ι → List (ITransport.Call ω τ α)
  | receive answer => [.receive answer]
  | transport call => [call]
  | test | dispatch | motor _ _ => []

/-- The steps until the loop is left, where `receive` returns no frame and `is_connected` is
false. -/
def Control.stepsLeft : Control ι → ℕ
  | .isConnected => 1
  | .receive => 2
  | .dispatch _ rest => rest.length + 3
  | .left => 0

/-- Once the transport is down, and as long as no other thread connects it, the loop hands over
nothing more than the frame in hand, and can go on until it is left: as many steps as the frame has
motors to go to, and three more at most. -/
def Leaves (fn : ReceiveFn ι) (m : ι → Motor) (T : ITransport σ ω τ α) : Prop :=
  ∀ (s k : LoopState σ ι) (es : List (LoopEvent ω τ α ι)), es.foldlM (fn.next m T) s = some k →
    T.isConnected s.transport = false → T.NoConnect s.transport (es.flatMap LoopEvent.calls) →
      k.returned = s.returned ∧ es.countP LoopEvent.own + k.control.stepsLeft ≤ s.control.stepsLeft ∧
        (k.control ≠ .left → ∃ e : LoopEvent ω τ α ι, e.own = true ∧ (fn.next m T k e).isSome)

/-- The loops that test `is_connected` are left where it is false, and nowhere else. -/
def LeavesOnlyDown (fn : ReceiveFn ι) (m : ι → Motor) (T : ITransport σ ω τ α) : Prop :=
  fn.afterError ≠ .left → fn.enter ≠ .left → ∀ (t : σ) (k : LoopState σ ι)
    (es : List (LoopEvent ω τ α ι)), es.foldlM (fn.next m T) (fn.start m t) = some k →
      k.control = .left → ∃ before after s, es = before ++ .test :: after ∧
        before.foldlM (fn.next m T) (fn.start m t) = some s ∧ s.control = .isConnected ∧
          T.isConnected s.transport = false

/-- Disconnected, the transport returns no frame, and stays so until it is connected. -/
structure ITransport.Refuses (T : ITransport σ ω τ α) : Prop where
  receive : ∀ {t}, T.isConnected t = false → ∀ answer, ∃ e, (T.receive t answer).1 = .error e
  down : ∀ {t}, T.isConnected t = false → ∀ c, T.NoConnect t [c] →
    T.isConnected (T.call t c) = false

/-- No connect in calls is none in either part. -/
theorem ITransport.NoConnect.append {calls calls' : List (ITransport.Call ω τ α)}
    (h : T.NoConnect t (calls ++ calls')) :
    T.NoConnect t calls ∧ T.NoConnect (T.run t calls) calls' := by
  constructor
  · rintro before o after rfl
    exact h before o (after ++ calls') (by simp)
  · rintro before o after rfl
    have hlater := h (calls ++ before) o after (by simp)
    rwa [ITransport.run_append] at hlater

/-- The loop calls the transport as the transport's own runs do. -/
theorem LoopStep.run_calls {e : LoopEvent ω τ α ι} (hstep : LoopStep fn m T s e s') :
    s'.transport = T.run s.transport e.calls := by
  cases hstep <;> rfl

omit [DecidableEq ι] in
/-- After an error at most the test is left. -/
theorem afterError_stepsLeft (fn : ReceiveFn ι) : fn.afterError.stepsLeft ≤ 1 := by
  cases fn with
  | receive _ | receiveAll _ => exact le_rfl
  | processSharedSocket _ => exact Nat.zero_le 1

omit [DecidableEq ι] in
/-- After a frame at most a `receive` and the test are left. -/
theorem afterFrame_stepsLeft (fn : ReceiveFn ι) : fn.afterFrame.stepsLeft ≤ 2 := by
  cases fn with
  | receive _ => exact Nat.le_succ 1
  | processSharedSocket _ | receiveAll _ => exact le_rfl

/-- A step of a loop whose transport is down. -/
theorem LoopStep.quit {e : LoopEvent ω τ α ι} (hT : T.Refuses)
    (hdown : T.isConnected s.transport = false) (hstep : LoopStep fn m T s e s') :
    s'.returned = s.returned ∧
      [e].countP LoopEvent.own + s'.control.stepsLeft ≤ s.control.stepsLeft := by
  cases hstep with
  | enter _ hup =>
      rw [hdown] at hup
      cases hup
  | leave hat _ =>
      rw [hat]
      exact ⟨rfl, le_rfl⟩
  | @frame answer _ _ hok =>
      obtain ⟨e, herror⟩ := hT.receive hdown answer
      rw [herror] at hok
      cases hok
  | error hat _ =>
      rw [hat]
      exact ⟨rfl, Nat.add_le_add_left (afterError_stepsLeft fn) 1⟩
  | @hand frame i rest hat =>
      rw [hat]
      refine ⟨rfl, ?_⟩
      simp only [List.countP_singleton, LoopEvent.own, if_true, Control.stepsLeft,
        List.length_cons]
      omega
  | handed hat =>
      rw [hat]
      exact ⟨rfl, Nat.add_le_add_left (afterFrame_stepsLeft fn) 1⟩
  | transport call => exact ⟨rfl, (Nat.zero_add _).le⟩
  | motor _ => exact ⟨rfl, (Nat.zero_add _).le⟩

/-- Until it is left, the loop can go on. -/
theorem exists_own [Nonempty α] (hleft : k.control ≠ .left) :
    ∃ e : LoopEvent ω τ α ι, e.own = true ∧ (fn.next m T k e).isSome := by
  obtain ⟨control, transport, guarded, returned, updates⟩ := k
  cases control with
  | isConnected => exact ⟨.test, rfl, rfl⟩
  | receive =>
      refine ⟨.receive (Classical.arbitrary α), rfl, ?_⟩
      simp only [ReceiveFn.next]
      split <;> rfl
  | dispatch frame rest =>
      refine ⟨.dispatch, rfl, ?_⟩
      cases rest <;> rfl
  | left => exact absurd rfl hleft

/-- A loop on a transport that refuses once it is down is left. -/
theorem ITransport.Refuses.leaves [Nonempty α] (hT : T.Refuses) (fn : ReceiveFn ι)
    (m : ι → Motor) : Leaves fn m T := by
  intro s k es hrun hdown hcalls
  induction es generalizing s with
  | nil =>
      obtain rfl := run_nil.mp hrun
      exact ⟨rfl, (Nat.zero_add _).le, exists_own⟩
  | cons e es ih =>
      obtain ⟨s', hnext, hlater⟩ := run_cons.mp hrun
      have hstep := next_step hnext
      rw [List.flatMap_cons] at hcalls
      obtain ⟨hnow, hrest⟩ := hcalls.append
      rw [← hstep.run_calls] at hrest
      -- No event connects the transport.
      have hdown' : T.isConnected s'.transport = false := by
        rw [hstep.run_calls]
        cases e with
        | receive answer => exact hT.down hdown _ hnow
        | transport call => exact hT.down hdown _ hnow
        | test | dispatch | motor _ _ => exact hdown
      obtain ⟨hreturned, hsteps⟩ := hstep.quit hT hdown
      obtain ⟨hreturned', hsteps', henabled⟩ := ih s' hlater hdown' hrest
      refine ⟨hreturned'.trans hreturned, ?_, henabled⟩
      rw [← List.singleton_append, List.countP_append]
      omega

/-- The control comes to the end in one way. -/
theorem LoopStep.left {e : LoopEvent ω τ α ι} (hstep : LoopStep fn m T s e s')
    (herror : fn.afterError ≠ .left) (hleft : s'.control = .left) :
    s.control = .left ∨ e = .test ∧ s.control = .isConnected ∧
      T.isConnected s.transport = false := by
  cases hstep with
  | leave hat hdown => exact Or.inr ⟨rfl, hat, hdown⟩
  | error _ _ => exact absurd hleft herror
  | handed _ =>
      cases fn with
      | receive _ | processSharedSocket _ | receiveAll _ => cases hleft
  | transport _ | motor _ => exact Or.inl hleft
  | enter _ _ | frame _ _ | hand _ => cases hleft

/-- **Every loop** that tests the transport is left only where it is down. -/
theorem leavesOnlyDown (fn : ReceiveFn ι) (m : ι → Motor) (T : ITransport σ ω τ α) :
    LeavesOnlyDown fn m T := by
  intro herror henter t k es hrun hleft
  induction es using List.reverseRecOn generalizing k with
  | nil =>
      obtain rfl := run_nil.mp hrun
      exact absurd hleft henter
  | append_singleton es e ih =>
      obtain ⟨s, hbefore, hnext⟩ := run_snoc.mp hrun
      rcases (next_step hnext).left herror hleft with hleft' | ⟨rfl, hat, hdown⟩
      · obtain ⟨before, after, s', rfl, hs', hat, hdown⟩ := ih s hbefore hleft'
        exact ⟨before, after ++ [e], s', by simp, hs', hat, hdown⟩
      · exact ⟨es, [], s, rfl, hbefore, hat, hdown⟩

/-- SocketCAN refuses once it is down. -/
theorem socket_refuses : socketCan.Refuses where
  receive {t} hdown answer := by
    have hrefused : t.receive answer.frame answer.nbytes answer.err =
        (.error .errDisconnected, t) := if_pos (Or.inr hdown)
    refine ⟨.errDisconnected, ?_⟩
    change (t.receive answer.frame answer.nbytes answer.err).1 = _
    rw [hrefused]
  down hdown c hc := socket_down hdown c hc

/-- So does serial. -/
theorem serial_refuses : serial.Refuses where
  receive {t} hdown answer := by
    have hrefused : t.receive (chunksOf answer) = (.error .errDisconnected, t) :=
      if_pos (serial_disconnected hdown)
    refine ⟨.errDisconnected, ?_⟩
    change (t.receive (chunksOf answer)).1 = _
    rw [hrefused]
  down hdown c hc := serial_down hdown c hc

/-- **The loops end** with their transport, and those that test it not before: on both transports,
whatever other threads do. -/
theorem loops_leave (fn : ReceiveFn ι) (m : ι → Motor) :
    (Leaves fn m socketCan ∧ Leaves fn m serial) ∧
      LeavesOnlyDown fn m socketCan ∧ LeavesOnlyDown fn m serial := by
  have : Nonempty SocketRead := ⟨⟨⟨0, 0, zeroPayload⟩, 0, .eagain⟩⟩
  exact ⟨⟨socket_refuses.leaves fn m, serial_refuses.leaves fn m⟩,
    leavesOnlyDown fn m socketCan, leavesOnlyDown fn m serial⟩

end Loops

/-- Two motors on a socket; a command begins while a frame is handed over. -/
def sharedEvents : List (LoopEvent SocketCANTransport.Opening (ℤ × Errno) SocketRead Bool) :=
  [.test, .receive ⟨sampleReply .feedback, 16, .eagain⟩, .dispatch,
    .motor false (.prepare .feedback), .dispatch, .dispatch]

theorem loop_hands_over_shared : ∃ k,
    sharedEvents.foldlM ((ReceiveFn.receiveAll [false, true]).next (fun _ => Motor.sample .priv)
      socketCan) ((ReceiveFn.receiveAll [false, true]).start (fun _ => Motor.sample .priv)
        ⟨3, true⟩) = some k ∧ k.returned = [sampleReply .feedback] ∧
          StatusOf (Motor.sample .priv) k.returned (k.guarded true).status := by
  have hruns : (sharedEvents.foldlM ((ReceiveFn.receiveAll [false, true]).next
      (fun _ => Motor.sample .priv) socketCan) ((ReceiveFn.receiveAll [false, true]).start
        (fun _ => Motor.sample .priv) ⟨3, true⟩)).map (fun k => (k.returned, k.control.pending true)) =
          some ([sampleReply .feedback], []) := rfl
  obtain ⟨k, hrun, hk⟩ := Option.map_eq_some_iff.mp hruns
  obtain ⟨hreturned, hpending⟩ := Prod.mk.inj hk
  exact ⟨k, hrun, hreturned, (loop_hands_over hrun).2.2 true (by decide) (by decide) hpending⟩

end Robstride
