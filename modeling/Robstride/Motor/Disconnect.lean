import Robstride.Motor.Programs
import Robstride.Motor.System
import Robstride.Support.Log

/-!
# Motor — Disconnecting

`Motor::disconnect` clears `status_.is_connected` and nothing else.  Every parsed frame sets the
flag again, and no operation reads it: each asks the transport, which the motor shares with others.

So after a `disconnect`, and until a `connect`, a motor is cut off as long as no frame is parsed,
the transport denies every call made since, and no call under way at the `disconnect` transmits a
frame any more (`disconnect_severs`).
-/

namespace Robstride

open Support Support.Pool Support.Prog

/-! ### Sessions -/

/-- What happens around the threads: on the bus, or a call of `connect` or `disconnect`. -/
inductive SessionEvent where
  | bus (e : BusEvent)
  | connect
  | disconnect

/-- `connect` calls the transport alone, `disconnect` clears the flag alone. -/
def State.session (e : SessionEvent) (s : State) : Option State :=
  match e with
  | .bus e => s.env e
  | .connect => some s
  | .disconnect =>
      some (s.withVars fun v => { v with status := { v.status with isConnected := false } })

/-- The threads on one `Motor`, its bus, and the calls that connect and disconnect it. -/
@[reducible] def Motor.session (m : Motor) : System where
  Act := Action
  Res := Action.Res
  State := State
  Choice := Choice
  Op := Op
  Env := SessionEvent
  perform := m.perform
  body := m.body
  call _ := State.call
  env := State.session

/-- Every thread idle, the object as constructed. -/
abbrev Motor.sessionInitial (m : Motor) : Config m.session := start m.initialState

/-- `status_.is_connected`. -/
def State.flag (s : State) : Bool := s.vars.status.isConnected

/-- The commands and the `send_*` functions, which return a `Result` of their own: `setup_mode`
returns `ERR_NACK` for a write that failed, and `read_parameter_raw` a value. -/
def Fn.isCommand : Fn → Bool
  | .setupMode => false
  | .readParameterRaw _ => false
  | _ => true

section

variable {m : Motor} {ls mid : List (Label m.session)} {c c' : Config m.session}

/-- What happened since a `disconnect`, with no `connect` after it. -/
def Since (ls mid : List (Label m.session)) : Prop :=
  ∃ before, ls = before ++ .env .disconnect :: mid ∧ .env .connect ∉ mid

/-- The motor is cut off: its flag is down, the commands called since return `ERR_NOT_CONNECTED`,
and no frame is transmitted. -/
structure Severed (mid : List (Label m.session)) (s : State) : Prop where
  status : s.flag = false
  refused : ∀ t op before after fn ret, mid = before ++ .call t op :: after →
    .act t (.leave fn ret) () ∈ after → fn.isCommand = true → ret = .result .errNotConnected
  silent : ∀ t fn frame, .act t (.transmit fn frame) .success ∉ mid

/-- Nothing undoes it: no frame is parsed, the transport denies every call made since, and a frame
is transmitted by none of the calls under way before. -/
structure Undisturbed (mid : List (Label m.session)) : Prop where
  unparsed : ∀ t reply, .act t (.parse reply) true ∉ mid
  denied : ∀ t op before after, mid = before ++ .call t op :: after →
    .act t .isConnected true ∉ after
  settled : ∀ t fn frame before after,
    mid = before ++ .act t (.transmit fn frame) .success :: after → ∃ op, .call t op ∈ before

/-! ### Programs that are denied -/

/-- The transport is not connected. -/
def Denied : (a : Action) → a.Res → Prop
  | .isConnected, connected => connected = false
  | _, _ => True

/-- Not a transmit, nor another return of a command. -/
def Action.Refusing : Action → Prop
  | .transmit _ _ => False
  | .leave fn value => fn.isCommand = true → value = .result .errNotConnected
  | _ => True

theorem withCommandMutex_denied {α : Type} {body : Cmd α} {Q : α → Prop}
    (h : body.Under Denied Action.Refusing Q) :
    (withCommandMutex body).Under Denied Action.Refusing Q := by
  refine Under.bind (Under.perform trivial) fun _ _ => h.bind fun x hx => ?_
  exact Under.bind (Under.perform trivial) fun _ _ => hx

theorem recorded_denied {fn : Fn} {body : Cmd Result} {Q : Result → Prop}
    (hQ : ∀ r, Q r → fn.isCommand = true → r = .errNotConnected)
    (h : body.Under Denied Action.Refusing Q) :
    (recorded fn body).Under Denied Action.Refusing Q := by
  refine Under.bind (Under.perform trivial) fun _ _ => h.bind fun r hr => ?_
  have hleave : (Action.leave fn (.result r)).Refusing :=
    fun hcommand => congrArg Ret.result (hQ r hr hcommand)
  exact Under.bind (Under.perform hleave) fun _ _ => hr

/-- Every function asks first. -/
theorem asked_denied {α : Type} {connected refused : Cmd α} {Q : α → Prop}
    (h : refused.Under Denied Action.Refusing Q) :
    (do if ← isConnected then connected else refused : Cmd α).Under Denied Action.Refusing Q := by
  refine Under.bind (Under.perform trivial) fun answer hanswer => ?_
  obtain rfl : answer = false := hanswer
  exact h

theorem request_denied (fn : Fn) (frame : CanFrame) (expected : FrameType) (timeoutMs : ℕ)
    (failed : Result → Result) :
    (Motor.request fn frame expected timeoutMs failed).Under Denied Action.Refusing
      fun r => r = .errNotConnected :=
  recorded_denied (fun _ hr _ => hr) (withCommandMutex_denied (asked_denied rfl))

theorem send_denied (fn : Fn) (frame : Option CanFrame) :
    (m.send fn frame).Under Denied Action.Refusing fun r => r = .errNotConnected :=
  recorded_denied (fun _ hr _ => hr) (asked_denied rfl)

theorem writeParameterRaw_denied (paramId : BitVec 16) (rawPayload : BitVec 32) :
    (m.writeParameterRaw paramId rawPayload).Under Denied Action.Refusing
      fun r => r = .errNotConnected :=
  recorded_denied (fun _ hr _ => hr) (withCommandMutex_denied (asked_denied rfl))

theorem readParameterRaw_denied (paramId : BitVec 16) :
    (m.readParameterRaw paramId).Under Denied Action.Refusing fun v => v = none := by
  have hbody : (withCommandMutex (m.readBody paramId)).Under Denied Action.Refusing
      fun v => v = none := withCommandMutex_denied (asked_denied rfl)
  refine Under.bind (Under.perform trivial) fun _ _ => hbody.bind fun value hvalue => ?_
  have hleave : (Action.leave (.readParameterRaw paramId) (.value value)).Refusing :=
    fun hcommand => Bool.noConfusion hcommand
  exact Under.bind (Under.perform hleave) fun _ _ => hvalue

/-- `setup_mode` ends after its first write. -/
theorem setupMode_denied (mode : RunMode) (limit1 limit2 limit3 : CFloat) :
    (m.setupMode mode limit1 limit2 limit3).Under Denied Action.Refusing fun _ => True := by
  refine recorded_denied (fun _ _ hcommand => Bool.noConfusion hcommand) ?_
  refine (writeParameterRaw_denied _ _).bind fun written hwritten => ?_
  obtain rfl : written = .errNotConnected := hwritten
  trivial

theorem drop_denied {α : Type} {p : Cmd α} {Q : α → Prop} (h : p.Under Denied Action.Refusing Q) :
    (do let _ ← p : Cmd Unit).Under Denied Action.Refusing fun _ => True :=
  h.bind fun _ _ => trivial

theorem refusing_of_fn {a : Action} (h : a.fn = none) : a.Refusing := by
  cases a with
  | transmit fn frame => cases h
  | leave fn ret => cases h
  | _ => trivial

theorem every_denied (m : Motor) :
    m.EveryFunction fun p => p.Under Denied Action.Refusing fun _ => True where
  request _ _ _ _ _ := drop_denied (request_denied _ _ _ _ _)
  send _ _ := drop_denied (send_denied _ _)
  setupMode _ _ _ _ := drop_denied (setupMode_denied _ _ _ _)
  stopPpMode := drop_denied (recorded_denied (fun _ hr _ => hr) (writeParameterRaw_denied _ _))
  writeParameterRaw _ _ := drop_denied (writeParameterRaw_denied _ _)
  readParameterRaw _ := drop_denied (readParameterRaw_denied _)
  processFrame reply := ((processFrame_processes m reply).mono fun _ ha => refusing_of_fn ha.1).under

/-- **Every operation** that is denied transmits nothing, and returns as a command should. -/
theorem body_denied (m : Motor) (op : Op) :
    (m.body op).Under Denied Action.Refusing fun _ => True := (every_denied m).body op

/-! ### Runs -/

/-- Only a parsed frame and a `disconnect` change the flag. -/
theorem perform_flag {t : ℕ} {a : Action} {ch : Choice} {s s' : State} {r : a.Res}
    (h : m.perform t a ch s = some (r, s')) (hparse : ∀ reply, a ≠ .parse reply) :
    s'.flag = s.flag := by
  cases a with
  | parse reply => exact absurd rfl (hparse reply)
  | enter fn =>
      simp only [Motor.perform] at h
      split_ifs at h
      all_goals
        obtain ⟨-, rfl⟩ := Prod.mk.inj (Option.some.inj h)
        rfl
  | leave fn ret =>
      obtain ⟨-, rfl⟩ := Prod.mk.inj (Option.some.inj h)
      unfold State.close
      split_ifs <;> rfl
  | transmit fn frame => rcases perform_transmit h with ⟨-, rfl⟩ | ⟨-, rfl⟩ <;> rfl
  | isConnected =>
      obtain rfl := perform_isConnected h
      rfl
  | undefined => cases h
  | _ =>
      simp only [Motor.perform] at h
      repeat' split at h
      all_goals cases h
      all_goals rfl

theorem perform_unparsed {t : ℕ} {reply : Reply} {ch : Choice} {s s' : State}
    (h : m.perform t (.parse reply) ch s = some (false, s')) : s' = s := by
  simp only [Motor.perform] at h
  split at h
  · cases h
  · exact (Prod.mk.inj (Option.some.inj h)).2.symm

/-- The state since the `disconnect`: the flag is down, and the calls made since are denied. -/
structure Cut (mid : List (Label m.session)) (c : Config m.session) : Prop where
  flag : c.state.flag = false
  denied : ∀ t op, .call t op ∈ mid → (c.threads t).Under Denied Action.Refusing fun _ => True

theorem flag_step {l : Label m.session} (hstep : Step c l c') (h : c.state.flag = false)
    (hparse : ∀ t reply, l ≠ .act t (.parse reply) true) : c'.state.flag = false := by
  cases hstep with
  | call hidle hs => exact (congrArg (·.status.isConnected) (call_vars hs)).trans h
  | @act t a k r s ch ht hs =>
      have hperform : m.perform t a ch c.state = some (r, s) := hs
      by_cases hreply : ∃ reply, a = .parse reply
      · obtain ⟨reply, rfl⟩ := hreply
        have hfalse : r = false := by
          by_contra htrue
          obtain rfl : r = true := Bool.eq_true_of_not_eq_false htrue
          exact hparse t reply rfl
        subst hfalse
        obtain rfl := perform_unparsed hperform
        exact h
      · exact (perform_flag hperform fun reply heq => hreply ⟨reply, heq⟩).trans h
  | @env e s hs =>
      cases e with
      | bus e => exact (congrArg (·.status.isConnected) (env_vars hs)).trans h
      | connect =>
          obtain rfl := Option.some.inj hs
          exact h
      | disconnect =>
          obtain rfl := Option.some.inj hs
          rfl

theorem denied_step {l : Label m.session} (hstep : Step c l c')
    (h : ∀ t op, .call t op ∈ mid → (c.threads t).Under Denied Action.Refusing fun _ => True)
    (hanswer : ∀ t op, .call t op ∈ mid → l ≠ .act t .isConnected true) (t : ℕ) (op : Op)
    (hmem : .call t op ∈ mid ++ [l]) :
    (c'.threads t).Under Denied Action.Refusing fun _ => True := by
  have hold : .call t op ∈ mid ∨ .call t op = l := by
    rcases List.mem_append.mp hmem with hmem | hmem
    · exact .inl hmem
    · exact .inr (List.mem_singleton.mp hmem)
  cases hstep with
  | @call u op' s x hidle hs =>
      by_cases ht : t = u
      · subst ht
        simp only [Function.update_self]
        exact body_denied m op'
      · simp only [Function.update_of_ne ht]
        refine h t op (hold.resolve_right fun heq => ht ?_)
        exact (Label.call.inj heq).1
  | @act u a k r s ch hu hs =>
      have hcalled : .call t op ∈ mid := hold.resolve_right fun heq => by cases heq
      by_cases ht : t = u
      · subst ht
        simp only [Function.update_self]
        have hunder := h t op hcalled
        rw [hu] at hunder
        refine hunder.2 r ?_
        cases a with
        | isConnected =>
            refine Bool.eq_false_of_not_eq_true fun htrue => hanswer t op hcalled ?_
            rw [htrue]
        | _ => trivial
      · simp only [Function.update_of_ne ht]
        exact h t op hcalled
  | env hs => exact h t op (hold.resolve_right fun heq => by cases heq)

/-- A first part of an undisturbed stretch. -/
theorem Undisturbed.earlier {mid' : List (Label m.session)} (h : Undisturbed (mid ++ mid')) :
    Undisturbed mid where
  unparsed t reply hmem := h.unparsed t reply (List.mem_append_left _ hmem)
  denied t op before after := by
    rintro rfl hmem
    refine h.denied t op before (after ++ mid') ?_ (List.mem_append_left _ hmem)
    rw [List.append_assoc, List.cons_append]
  settled t fn frame before after := by
    rintro rfl
    refine h.settled t fn frame before (after ++ mid') ?_
    rw [List.append_assoc, List.cons_append]

/-- The whole stretch. -/
theorem Cut.path (h : Path Any c mid c') (hflag : c.state.flag = false)
    (hcalm : Undisturbed mid) : Cut mid c' := by
  induction h with
  | nil => exact ⟨hflag, fun t op hmem => absurd hmem List.not_mem_nil⟩
  | @snoc c₁ c₂ mid l hpath hstep _ ih =>
      have hcut := ih hcalm.earlier
      refine ⟨flag_step hstep hcut.flag ?_, denied_step hstep hcut.denied ?_⟩
      · rintro t reply rfl
        exact hcalm.unparsed t reply (List.mem_append_right _ List.mem_cons_self)
      · rintro t op hmem rfl
        obtain ⟨before, after, rfl⟩ := List.append_of_mem hmem
        refine hcalm.denied t op before (after ++ [.act t .isConnected true]) ?_
          (List.mem_append_right _ List.mem_cons_self)
        rw [List.append_assoc, List.cons_append]

/-- An action of a thread called since is one that a denied program may come to. -/
theorem refusing_of_mem (h : Path Any c mid c') (hflag : c.state.flag = false)
    (hcalm : Undisturbed mid) {t : ℕ} {op : Op} {a : Action} {r : a.Res}
    {before after : List (Label m.session)} (hmid : mid = before ++ .call t op :: after)
    (hmem : .act t a r ∈ after) : a.Refusing := by
  obtain ⟨between, rest, rfl⟩ := List.append_of_mem hmem
  have hsplit : mid = (before ++ .call t op :: between) ++ .act t a r :: rest := by
    rw [hmid, List.append_assoc, List.cons_append]
  rw [hsplit] at h hcalm
  obtain ⟨c₁, c₂, hfirst, hstep, -, -⟩ := h.cut
  have hcut := Cut.path hfirst hflag hcalm.earlier
  have hunder := hcut.denied t op (List.mem_append_right _ List.mem_cons_self)
  cases hstep with
  | act ch ht hs =>
      rw [ht] at hunder
      exact hunder.1

/-- **After a `disconnect`**, and until a `connect`, the motor is cut off in every state that a run
reaches, as long as the stretch is undisturbed. -/
theorem disconnect_severs {m : Motor} {ls : List (Label m.session)} {c : Config m.session}
    (h : Path Any m.sessionInitial ls c) (hcalm : ∀ mid, Since ls mid → Undisturbed mid) :
    ∀ mid, Since ls mid → Severed mid c.state := by
  intro mid hsince
  have hmid := hcalm mid hsince
  obtain ⟨before, rfl, -⟩ := hsince
  obtain ⟨c₁, c₂, -, hstep, -, hpath⟩ := h.cut
  have hflag : c₂.state.flag = false := by
    cases hstep with
    | env hs =>
        obtain rfl := Option.some.inj hs
        rfl
  refine ⟨(Cut.path hpath hflag hmid).flag, ?_, ?_⟩
  · intro t op before' after fn ret hsplit hmem hcommand
    exact refusing_of_mem hpath hflag hmid hsplit hmem hcommand
  · intro t fn frame hmem
    obtain ⟨before', after, hsplit⟩ := List.append_of_mem hmem
    obtain ⟨op, hcall⟩ := hmid.settled t fn frame before' after hsplit
    obtain ⟨early, late, rfl⟩ := List.append_of_mem hcall
    have hsince : mid =
        early ++ .call t op :: (late ++ .act t (.transmit fn frame) .success :: after) := by
      rw [hsplit, List.append_assoc, List.cons_append]
    have hrefusing : (Action.transmit fn frame).Refusing :=
      refusing_of_mem hpath hflag hmid hsince (List.mem_append_right _ List.mem_cons_self)
    exact hrefusing

/-- The transport agrees to something, or a frame is parsed. -/
def grants : Label m.session → Bool
  | .act _ (.parse _) parsed => parsed
  | .act _ .isConnected connected => connected
  | .act _ (.transmit _ _) sent => sent = .success
  | _ => false

theorem undisturbed_of_grants (h : ∀ l ∈ mid, grants l = false) : Undisturbed mid where
  unparsed t reply hmem := Bool.noConfusion (h _ hmem)
  denied t op before after := by
    rintro rfl hmem
    exact Bool.noConfusion (h _ (List.mem_append_right _ (List.mem_cons_of_mem _ hmem)))
  settled t fn frame before after := by
    rintro rfl
    exact Bool.noConfusion (h _ (List.mem_append_right _ List.mem_cons_self))

end

/-- After a `disconnect`, a call of `stop` that the transport denies. -/
def deniedStop : List (Label (Motor.sample .priv).session) :=
  [.env .disconnect, .call 0 Op.stop, .act 0 (Action.enter .stop) (), .act 0 Action.lockCommand (),
    .act 0 Action.isConnected false, .act 0 Action.unlockCommand (),
    .act 0 (Action.leave .stop (.result .errNotConnected)) ()]

theorem disconnect_severs_denied : ∃ c : Config (Motor.sample .priv).session,
    Path Any (Motor.sample .priv).sessionInitial deniedStop c ∧
      ∀ mid, Since deniedStop mid → Severed mid c.state := by
  have hlog : ((Motor.sample .priv).sessionInitial.log Any [.env .disconnect, .call 0 Op.stop,
      .step 0 Choice.go, .step 0 Choice.go, .step 0 (Choice.connected false), .step 0 Choice.go,
      .step 0 Choice.go]).map Prod.fst = some deniedStop := rfl
  obtain ⟨⟨ls, c⟩, hlog, rfl⟩ := Option.map_eq_some_iff.mp hlog
  refine ⟨c, log_path hlog, disconnect_severs (log_path hlog) ?_⟩
  rintro mid ⟨before, hmid, -⟩
  refine undisturbed_of_grants fun l hl => ?_
  have hall : ∀ l ∈ deniedStop, grants l = false := by decide
  refine hall l ?_
  rw [hmid]
  exact List.mem_append_right _ (List.mem_cons_of_mem _ hl)

/-- After a `disconnect`, a call of `stop` up to its transmit. -/
def sentStop : List (Label (Motor.sample .priv).session) :=
  [.env .disconnect, .call 0 Op.stop, .act 0 (Action.enter .stop) (), .act 0 Action.lockCommand (),
    .act 0 Action.isConnected true, .act 0 Action.lockMotor (),
    .act 0 (Action.prepare .stop .feedback) (), .act 0 Action.unlockMotor (),
    .act 0 (Action.transmit .stop (ProtocolPrivate.encodeStop 1 0)) .success]

/-- **A motor that was disconnected** goes on transmitting over the shared transport. -/
theorem disconnected_transmits : ¬ ∀ (m : Motor) (ls : List (Label m.session))
    (c : Config m.session), Path Any m.sessionInitial ls c →
      ∀ mid, Since ls mid → Severed mid c.state := by
  intro hall
  have hlog : ((Motor.sample .priv).sessionInitial.log Any [.env .disconnect, .call 0 Op.stop,
      .step 0 Choice.go, .step 0 Choice.go, .step 0 (Choice.connected true), .step 0 Choice.go,
      .step 0 Choice.go, .step 0 Choice.go, .step 0 (Choice.transmitted .success)]).map Prod.fst =
        some sentStop := rfl
  obtain ⟨⟨ls, c⟩, hlog, rfl⟩ := Option.map_eq_some_iff.mp hlog
  have hsince : Since sentStop sentStop.tail := ⟨[], rfl, by simp [sentStop]⟩
  have hmem : .act 0 (Action.transmit .stop (ProtocolPrivate.encodeStop 1 0)) .success ∈
      sentStop.tail := by simp [sentStop]
  exact (hall _ _ _ (log_path hlog) _ hsince).silent _ _ _ hmem

end Robstride
