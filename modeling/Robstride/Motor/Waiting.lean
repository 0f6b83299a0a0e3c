import Robstride.Motor.Programs
import Robstride.Motor.Reading
import Robstride.Support.Log

/-!
# Motor — Waiting

What a waiting command makes of the frames that come, told by the log of the run.

The synchronous commands share `expected_response_type_` and `response_received_`.  A call that
transmits its frame succeeds exactly when a frame of the type it expects was parsed between its
`prepare_wait` and its last look at the flag, and no other call sets the type in between
(`command_completes`).  The value that `read_parameter_raw` returns is the payload of one frame
parsed between its `prepare_wait` and its return (`read_is_fresh`).
-/

namespace Robstride

open Support Support.Prog Support.Pool Support.Pool.Discipline

/-! ### Frames parsed -/

/-- What an action parsed. -/
def Action.parsed : (a : Action) → a.Res → List Reply
  | .parse reply, parsed => if parsed then [reply] else []
  | _, _ => []

section

variable {m : Motor}

/-- The frames that `process_frame` parsed. -/
def parses (log : List (Label m.system)) : List Reply :=
  log.flatMap fun
    | .act _ a r => a.parsed r
    | _ => []

theorem parses_append (log log' : List (Label m.system)) :
    parses (log ++ log') = parses log ++ parses log' := List.flatMap_append

theorem mem_parses {log : List (Label m.system)} {reply : Reply} :
    reply ∈ parses log ↔ ∃ u, .act u (Action.parse reply) true ∈ log := by
  constructor
  · intro h
    obtain ⟨l, hl, hreply⟩ := List.mem_flatMap.mp h
    cases l with
    | call t op => cases hreply
    | env e => cases hreply
    | act u a r =>
        cases a with
        | parse reply' =>
            cases r with
            | false => cases hreply
            | true => exact ⟨u, List.mem_singleton.mp hreply ▸ hl⟩
        | _ => cases hreply
  · rintro ⟨u, hl⟩
    exact List.mem_flatMap.mpr ⟨_, hl, List.mem_singleton_self reply⟩

/-- The function that returns at the label, and what it returns. -/
def returned : Label m.system → Option (ℕ × Fn × Ret)
  | .act t (.leave fn value) _ => some (t, fn, value)
  | _ => none

theorem returned_eq_some {l : Label m.system} {t : ℕ} {fn : Fn} {value : Ret} :
    returned l = some (t, fn, value) ↔ l = .act t (Action.leave fn value) () := by
  constructor
  · intro h
    cases l with
    | call t op => cases h
    | env e => cases h
    | act t a r =>
        cases a with
        | leave fn value =>
            obtain ⟨rfl, hvalue⟩ := Prod.mk.inj (Option.some.inj h)
            obtain ⟨rfl, rfl⟩ := Prod.mk.inj hvalue
            rfl
        | _ => cases h
  · rintro rfl
    rfl

/-- Every frame parsed was accepted. -/
theorem parse_accepted {C : State → Label m.system → Prop} {log : List (Label m.system)}
    {c : Config m.system} (h : Path C m.initial log c) {u : ℕ} {reply : Reply} {parsed : Bool}
    (hl : .act u (Action.parse reply) parsed ∈ log) :
    m.protocol.isFeedbackFrame reply.frame m.motorId = true := by
  obtain ⟨before, after, rfl⟩ := List.append_of_mem hl
  obtain ⟨c₁, c₂, h₁, hstep, -, -⟩ := h.cut
  cases hstep with
  | act ch ht hs =>
      obtain ⟨_, op, _, tr, _, _, hafter⟩ := Path.at_act h₁ ht
      cases hop : op.fn with
      | some fn => exact absurd trivial ((body_within m op hop).at_act hafter).1
      | none =>
          cases op with
          | processFrame reply' =>
              obtain ⟨rfl, haccepted⟩ := ((processFrame_processes m reply').at_act hafter).2 _ rfl
              exact haccepted
          | _ => cases hop

/-! ### The last request -/

section

variable {t : ℕ} {s s' : State} {a : Action} {ch : Choice} {r : a.Res}

/-- Only `prepare_wait` makes a request. -/
theorem perform_next (ha : ∀ fn expected, a ≠ .prepare fn expected)
    (h : m.perform t a ch s = some (r, s')) : s'.next = s.next := by
  cases perform_effect h with
  | prepare fn expected => exact absurd rfl (ha fn expected)
  | leave fn ret =>
      simp only [State.close]
      split_ifs <;> rfl
  | other hsame => exact hsame.next
  | _ => rfl

/-- A thread keeps `command_mutex_` until it releases it. -/
theorem perform_command (ha : a ≠ .unlockCommand) (h : m.perform t a ch s = some (r, s'))
    (hc : ∃ n, s.commandMutex = some (t, n)) : ∃ n, s'.commandMutex = some (t, n) := by
  obtain ⟨n, hn⟩ := hc
  cases a with
  | unlockCommand => exact absurd rfl ha
  | lockCommand =>
      simp only [Motor.perform, hn, if_true] at h
      obtain ⟨-, rfl⟩ := Prod.mk.inj (Option.some.inj h)
      exact ⟨n + 1, rfl⟩
  | leave fn ret =>
      obtain ⟨-, rfl⟩ := Prod.mk.inj (Option.some.inj h)
      simp only [State.close]
      split_ifs <;> exact ⟨n, hn⟩
  | isConnected =>
      obtain rfl := perform_isConnected h
      exact ⟨n, hn⟩
  | transmit fn frame => rcases perform_transmit h with ⟨-, rfl⟩ | ⟨-, rfl⟩ <;> exact ⟨n, hn⟩
  | _ =>
      simp only [Motor.perform] at h
      repeat' split at h
      all_goals cases h
      all_goals exact ⟨n, hn⟩

/-- What an action does to a request made before it. -/
theorem perform_wait (ha : ∀ fn expected, a ≠ .prepare fn expected)
    (h : m.perform t a ch s = some (r, s')) {i : ℕ} (hi : i < s.next) :
    (s'.waits i).expected = (s.waits i).expected ∧
      (s'.waits i).parsed.map Parsed.reply =
        (s.waits i).parsed.map Parsed.reply ++ a.parsed r := by
  by_cases hparse : ∃ reply, a = .parse reply
  · obtain ⟨reply, rfl⟩ := hparse
    simp only [Motor.perform] at h
    split at h
    next status hstatus =>
      obtain ⟨rfl, rfl⟩ := Prod.mk.inj (Option.some.inj h)
      simp [State.recordParsed, State.withVars, hi, Action.parsed]
    next =>
      obtain ⟨rfl, rfl⟩ := Prod.mk.inj (Option.some.inj h)
      simp [Action.parsed]
  · have hnone : a.parsed r = [] := by
      cases a with
      | parse reply => exact absurd ⟨reply, rfl⟩ hparse
      | _ => rfl
    rw [hnone, List.append_nil]
    have hchange := (perform_effect h).change i
    generalize s'.waits i = w at hchange
    cases hchange with
    | prepare fn expected => exact absurd rfl (ha fn expected)
    | parse reply => exact absurd ⟨reply, rfl⟩ hparse
    | _ => exact ⟨rfl, rfl⟩

end

/-- No request is made in the log. -/
def NoPrepare (log : List (Label m.system)) : Prop :=
  ∀ u fn expected, .act u (Action.prepare fn expected) () ∉ log

/-- The requests made before, when others see the frames of the log. -/
theorem wait_of_path {C : State → Label m.system → Prop} {log : List (Label m.system)}
    {c c' : Config m.system} (h : Path C c log c') (hlog : NoPrepare log) {i : ℕ}
    (hi : i < c.state.next) :
    c'.state.next = c.state.next ∧
      (c'.state.waits i).expected = (c.state.waits i).expected ∧
        (c'.state.waits i).parsed.map Parsed.reply =
          (c.state.waits i).parsed.map Parsed.reply ++ parses log := by
  induction h with
  | nil => exact ⟨rfl, rfl, (List.append_nil _).symm⟩
  | @snoc c₁ c₂ log l _ hstep _ ih =>
      obtain ⟨hnext, hexpected, hparsed⟩ :=
        ih fun u fn expected hl => hlog u fn expected (List.mem_append_left _ hl)
      rw [parses_append, ← List.append_assoc, ← hparsed]
      cases hstep with
      | call hidle hs =>
          obtain ⟨replies, rfl⟩ := call_effect hs
          exact ⟨hnext, hexpected, (List.append_nil _).symm⟩
      | @act u a k r s ch ht hs =>
          have ha : ∀ fn expected, a ≠ .prepare fn expected := by
            rintro fn expected rfl
            exact hlog u fn expected (List.mem_append_right _ (List.mem_singleton_self _))
          obtain ⟨hexpected', hparsed'⟩ := perform_wait ha hs (hnext ▸ hi)
          refine ⟨(perform_next ha hs).trans hnext, hexpected'.trans hexpected, ?_⟩
          rw [hparsed']
          simp [parses]
      | env hs =>
          -- A timeout marks a request, and leaves what it saw.
          rcases env_effect hs with ⟨arrived, received, replies, rfl⟩ | ⟨j, -, rfl⟩
          · exact ⟨hnext, hexpected, (List.append_nil _).symm⟩
          · refine ⟨hnext, ?_, ?_⟩
            · by_cases hj : i = j
              · subst hj
                simpa [State.withWait] using hexpected
              · simpa [State.withWait, hj] using hexpected
            · by_cases hj : i = j
              · subst hj
                simp [State.withWait, parses]
              · simp [State.withWait, hj, parses]

/-- A thread that holds `command_mutex_` has made the last request. -/
theorem stable_last (t n : ℕ) : m.discipline.Stable t fun s =>
    (∃ k, s.commandMutex = some (t, k)) ∧ s.next = n := by
  rintro s s' ⟨⟨k, hk⟩, hn⟩ hr
  exact ⟨⟨k, (hr.command k).mpr hk⟩, (hr.active ⟨k, hk⟩).trans hn⟩

/-- The thread goes on with its request. -/
def Pursues (t : ℕ) (log : List (Label m.system)) : Prop :=
  (∀ a r, .act t a r ∈ log → a ≠ .unlockCommand ∧ ∀ fn expected, a ≠ .prepare fn expected) ∧
    ∀ op, .call t op ∉ log

/-- **From `prepare_wait` on** no other thread makes a request, as long as the thread holds
`command_mutex_`, and the request sees the frames of the log. -/
theorem since_prepare {C : State → Label m.system → Prop} {t : ℕ} {fn : Fn} {expected : FrameType}
    {earlier wait : List (Label m.system)} {c : Config m.system}
    (h : Path C m.initial (earlier ++ .act t (Action.prepare fn expected) () :: wait) c)
    (hwait : Pursues t wait) :
    NoPrepare wait ∧ ∃ i, i + 1 = c.state.next ∧ (c.state.waits i).expected = expected ∧
      (c.state.waits i).parsed.map Parsed.reply = parses wait := by
  obtain ⟨c₁, c₂, h₁, hstep, -, h₂⟩ := h.cut
  have hok₁ := path_ok (discipline_kept m) (initial_ok m) h₁
  have hok₂ := step_ok (discipline_kept m) hok₁ hstep
  obtain ⟨n, hheld, hnext, hexpected, hparsed⟩ : ∃ n, (∃ k, c₂.state.commandMutex = some (t, k)) ∧
      c₂.state.next = n + 1 ∧ (c₂.state.waits n).expected = expected ∧
        (c₂.state.waits n).parsed = [] := by
    cases hstep with
    | act ch ht hs =>
        obtain ⟨-, hheld⟩ := hok₁.pre ht
        simp only [Motor.perform] at hs
        obtain ⟨-, rfl⟩ := Prod.mk.inj (Option.some.inj hs)
        refine ⟨c₁.state.next, hheld, rfl, ?_, ?_⟩ <;>
          simp [State.withLocal, State.withWait, State.withVars, noWait]
  -- The thread holds `command_mutex_` all along.
  have hkeeps : ∀ {ls rest c'}, wait = ls ++ rest → Path C c₂ ls c' →
      (∃ k, c'.state.commandMutex = some (t, k)) ∧ c'.state.next = n + 1 := by
    rintro ls rest c' rfl hpath
    refine path_keeps (discipline_kept m) (stable_last t (n + 1)) hok₂ ⟨hheld, hnext⟩ hpath
      (fun a r hl s ch s' _ hs hperform => ?_) fun op hl => hwait.2 op (List.mem_append_left _ hl)
    obtain ⟨hunlock, hprepare⟩ := hwait.1 a r (List.mem_append_left _ hl)
    exact ⟨perform_command hunlock hperform hs.1, (perform_next hprepare hperform).trans hs.2⟩
  -- Another `prepare` would have raised the number of requests.
  have hnone : NoPrepare wait := by
    rintro u fn' expected' hl
    obtain ⟨ls, rest, hls⟩ := List.append_of_mem hl
    obtain ⟨c₃, c₄, h₃, hstep, hC, -⟩ := Path.cut (hls ▸ h₂)
    have hnext₃ := (hkeeps hls h₃).2
    have hnext₄ := (hkeeps (hls.trans (List.append_cons ..)) (h₃.snoc hstep hC)).2
    cases hstep with
    | act ch ht hs =>
        simp only [Motor.perform] at hs
        obtain ⟨-, rfl⟩ := Prod.mk.inj (Option.some.inj hs)
        exact absurd (hnext₄.trans hnext₃.symm) (Nat.succ_ne_self _)
  obtain ⟨hnext', hexpected', hparsed'⟩ := wait_of_path h₂ hnone (hnext.ge.trans' n.lt_succ_self)
  refine ⟨hnone, n, (hnext'.trans hnext).symm, hexpected'.trans hexpected, ?_⟩
  rw [hparsed', hparsed, List.map_nil, List.nil_append]

/-- A frame of the type was parsed. -/
def Answered (expected : FrameType) (log : List (Label m.system)) : Prop :=
  ∃ u reply, .act u (Action.parse reply) true ∈ log ∧
    m.protocol.isFeedbackFrame reply.frame m.motorId = true ∧
      m.protocol.getResponseType reply.frame = expected

/-- A request is matched exactly when a frame of its type was parsed since. -/
theorem matched_iff {C : State → Label m.system → Prop} {t : ℕ} {fn : Fn} {expected : FrameType}
    {earlier wait : List (Label m.system)} {c : Config m.system}
    (h : Path C m.initial (earlier ++ .act t (Action.prepare fn expected) () :: wait) c) {w : Wait}
    (hexpected : w.expected = expected) (hparsed : w.parsed.map Parsed.reply = parses wait) :
    w.Matched m ↔ Answered expected wait := by
  constructor
  · rintro ⟨p, hp, htype⟩
    have hreply : p.reply ∈ parses wait := hparsed ▸ List.mem_map_of_mem hp
    obtain ⟨u, hl⟩ := mem_parses.mp hreply
    have haccepted := parse_accepted h (List.mem_append_right _ (List.mem_cons_of_mem _ hl))
    exact ⟨u, p.reply, hl, haccepted, htype.trans hexpected⟩
  · rintro ⟨u, reply, hl, -, htype⟩
    have hreply : reply ∈ w.parsed.map Parsed.reply := hparsed ▸ mem_parses.mpr ⟨u, hl⟩
    obtain ⟨p, hp, rfl⟩ := List.mem_map.mp hreply
    exact ⟨p, hp, htype.trans hexpected.symm⟩

/-- A look at the flag sees what the last request saw. -/
theorem check_sees {c c' : Config m.system} {t : ℕ} {a : Action} {r : a.Res} {received : Bool}
    (hok : m.discipline.Ok c) (hstep : Step c (.act t a r) c') (hcheck : Check ⟨a, r⟩ received) :
    Coherent m c.state ∧ received = c.state.vars.responseReceived := by
  cases hstep with
  | act ch ht hs =>
      cases hcheck with
      | startWait timeoutMs =>
          obtain ⟨-, hc⟩ := hok.pre ht
          refine ⟨hc, ?_⟩
          simp only [Motor.perform] at hs
          split_ifs at hs with hflag
          · have hset : c.state.vars.responseReceived = true := hflag
            exact (Prod.mk.inj (Option.some.inj hs)).1.symm.trans hset.symm
          · have hset : c.state.vars.responseReceived = false := Bool.eq_false_iff.mpr hflag
            exact (Prod.mk.inj (Option.some.inj hs)).1.symm.trans hset.symm
      | wake =>
          -- Awake, the thread takes the mutex and finds the fields it guards coherent.
          simp only [Motor.perform] at hs
          split_ifs at hs with hm hflag
          · exact ⟨hok.inv.free hm, (Prod.mk.inj (Option.some.inj hs)).1.symm.trans hflag.symm⟩
          · have hset : c.state.vars.responseReceived = false := Bool.eq_false_iff.mpr hflag
            refine ⟨hok.inv.free hm, ?_⟩
            split at hs
            next => cases hs
            next i hi =>
              split_ifs at hs
              exact (Prod.mk.inj (Option.some.inj hs)).1.symm.trans hset.symm

/-- **A look at the flag** sees whether a frame of the type was parsed since `prepare_wait`. -/
theorem check_iff {C : State → Label m.system → Prop} {t : ℕ} {fn : Fn} {expected : FrameType}
    {earlier wait : List (Label m.system)} {c c' : Config m.system} {a : Action} {r : a.Res}
    {received : Bool}
    (h : Path C m.initial (earlier ++ .act t (Action.prepare fn expected) () :: wait) c)
    (hwait : Pursues t wait) (hstep : Step c (.act t a r) c') (hcheck : Check ⟨a, r⟩ received) :
    received = true ↔ Answered expected wait := by
  obtain ⟨-, i, hi, hexpected, hparsed⟩ := since_prepare h hwait
  have hok := path_ok (discipline_kept m) (initial_ok m) h
  obtain ⟨hc, rfl⟩ := check_sees hok hstep hcheck
  rw [(hc i hi).flag]
  exact matched_iff h hexpected hparsed

/-! ### Synchronous commands -/

/-- The part of a call between its `prepare_wait` and its last look at the flag. -/
def WaitsIn (t : ℕ) (fn : Fn) (expected : FrameType) (call wait : List (Label m.system)) : Prop :=
  ∃ start check received rest,
    call = start ++ .act t (Action.prepare fn expected) () :: wait ++ .act t check.1 check.2 :: rest ∧
      Check check received ∧
      (∀ fn' expected', .act t (Action.prepare fn' expected') () ∉ start) ∧
      ∀ check' received', Check check' received' → .act t check'.1 check'.2 ∉ rest

/-- In the log up to the return of a call of `fn`: if the call transmitted its frame, then no
other request was made between its `prepare_wait` and its last look at the flag, and the result
says whether a frame of the expected type was parsed in between. -/
def Completes (t : ℕ) (fn : Fn) (expected : FrameType) (r : Result)
    (log : List (Label m.system)) : Prop :=
  ∃ earlier call, log = earlier ++ .act t (Action.enter fn) () :: call ∧
    (∀ fn', .act t (Action.enter fn') () ∉ call) ∧
    ∀ frame, .act t (Action.transmit fn frame) .success ∈ call →
      ∃ wait, WaitsIn t fn expected call wait ∧
        .act t (Action.transmit fn frame) .success ∈ wait ∧ NoPrepare wait ∧
          (r = .success ↔ Answered expected wait)

/-- A thread that neither ends its request nor begins another goes on with it. -/
theorem pursues_of_performs {t : ℕ} {tr : CmdTrace} {log : List (Label m.system)}
    (h : Performs t tr log)
    (htr : ∀ x ∈ tr, x.1 ≠ .unlockCommand ∧ ∀ fn expected, x.1 ≠ .prepare fn expected) :
    Pursues t log :=
  ⟨fun _ _ hl => htr _ (h.mem hl), h.not_call⟩

theorem BeforeCheck.pursues {tr : CmdTrace} (h : BeforeCheck tr) :
    ∀ x ∈ tr, x.1 ≠ .unlockCommand ∧ ∀ fn expected, x.1 ≠ .prepare fn expected := by
  cases h with
  | locked => simp
  | slept timeoutMs => simp

theorem Check.pursues {check : Σ a : Action, a.Res} {received : Bool} (h : Check check received) :
    check.1 ≠ .unlockCommand ∧ ∀ fn expected, check.1 ≠ .prepare fn expected := by
  cases h with
  | startWait timeoutMs b => simp
  | wake b => simp

theorem Requests.not_enter {fn fn' : Fn} {frame : CanFrame} {expected : FrameType} {tr : CmdTrace}
    {r : Result} (h : Requests fn frame expected tr r) : ⟨.enter fn', ()⟩ ∉ tr := by
  cases h with
  | refused => simp
  | unsent => simp
  | waited htr hcheck => cases htr <;> cases hcheck <;> simp

/-- A request whose frame went out waited for the answer. -/
theorem Requests.sent {fn : Fn} {asked : CanFrame} {expected : FrameType} {tr : CmdTrace}
    {r : Result} (h : Requests fn asked expected tr r) {frame : CanFrame}
    (hsent : ⟨.transmit fn frame, .success⟩ ∈ tr) :
    ∃ tr' check received, BeforeCheck tr' ∧ Check check received ∧
      tr = ([⟨.lockCommand, ()⟩, ⟨.isConnected, true⟩, ⟨.lockMotor, ()⟩] ++
          ⟨.prepare fn expected, ()⟩ ::
            ([⟨.unlockMotor, ()⟩, ⟨.transmit fn frame, .success⟩] ++ tr')) ++
          check :: [⟨.unlockMotor, ()⟩, ⟨.unlockCommand, ()⟩] ∧
      r = if received then .success else .errTimeout := by
  cases h with
  | refused => simp at hsent
  | unsent hne => simp [hne.symm] at hsent
  | waited htr hcheck =>
      obtain rfl : frame = asked := by
        cases htr <;> cases hcheck <;> simpa using hsent
      exact ⟨_, _, _, htr, hcheck, by simp, rfl⟩

/-- **A synchronous command** that transmitted its frame succeeds exactly when a frame of the type
it expects was parsed between its `prepare_wait` and its last look at the flag; no other request
is made in between. -/
theorem command_completes {C : State → Label m.system → Prop} {t : ℕ} {fn : Fn}
    {expected : FrameType} (hfn : m.awaited fn = some expected) {r : Result}
    {log after : List (Label m.system)} {k : Config m.system}
    (h : Path C m.initial (log ++ .act t (Action.leave fn (.result r)) () :: after) k) :
    Completes t fn expected r log := by
  obtain ⟨c, c', hlog, hleave, -, -⟩ := h.cut
  cases hleave with
  | act ch ht hs =>
      obtain ⟨before, op, since, tr, rfl, hsince, hafter⟩ := Path.at_act hlog ht
      obtain ⟨tr₀, asked, tr', rfl, hrequests⟩ := command_leave hfn hafter
      obtain ⟨outer, call, rfl, -, hcall⟩ := performs_cut hsince
      refine ⟨before ++ .call t op :: outer, call, by simp, ?_, fun frame hframe => ?_⟩
      · exact fun fn' hl => hrequests.not_enter (hcall.mem hl)
      obtain ⟨tr', check, received, htr', hcheck, rfl, rfl⟩ := hrequests.sent (hcall.mem hframe)
      -- The call up to its last look, and from its `prepare_wait` on.
      obtain ⟨asked, rest, rfl, hasked, hrest⟩ := performs_cut hcall
      obtain ⟨start, wait, rfl, hstart, hwait⟩ := performs_cut hasked
      have hpursues : Pursues t wait :=
        pursues_of_performs hwait (List.forall_mem_append.mpr ⟨by simp, htr'.pursues⟩)
      have hcut : Path C m.initial (((before ++ .call t op :: (outer ++
          .act t (Action.enter fn) () :: start)) ++
            .act t (Action.prepare fn expected) () :: wait) ++ .act t check.1 check.2 :: rest) c := by
        simpa using hlog
      obtain ⟨c₁, c₂, h₁, hlook, -, -⟩ := hcut.cut
      refine ⟨wait, ⟨start, check, received, rest, rfl, hcheck, fun fn' e hl => ?_,
        fun check' received' hcheck' hl => ?_⟩, ?_, (since_prepare h₁ hpursues).1, ?_⟩
      · have hmem := hstart.mem hl
        simp at hmem
      · have hmem := hrest.mem hl
        cases hcheck' <;> simp at hmem
      · exact hwait.mem_log (List.mem_append_left _ (by simp))
      · rw [← check_iff h₁ hpursues hlook hcheck]
        cases received <;> simp

/-- A `ping` whose reply is processed before the call begins to wait. -/
def pingBeforeWait : Schedule .priv :=
  [.call 0 Op.ping] ++ go 0 2 ++ up 0 ++ go 0 3 ++ out 0 ++
    [.env (BusEvent.deliver (some (sampleReply .info)))] ++
    taking 1 7 ⟨sampleReply .info, some 0⟩ ++ go 0 5

theorem command_completes_ping : ∃ (log : List (Label (Motor.sample .priv).system))
    (k : Config (Motor.sample .priv).system), Path Any (Motor.sample .priv).initial
      (log ++ [.act 0 (Action.leave .ping (.result .success)) ()]) k ∧
        Completes 0 .ping .info .success log := by
  have h : ((Motor.sample .priv).initial.log Any pingBeforeWait).map
      (fun p => p.1.getLast?.bind returned) = some (some (0, .ping, .result .success)) := by
    decide +kernel
  obtain ⟨log, l, k, hpath, hl⟩ := log_path_last h
  obtain rfl := returned_eq_some.mp hl
  exact ⟨log, k, hpath, command_completes rfl hpath⟩

/-! ### Reading a parameter -/

/-- The frame carries the parameter and its value. -/
def Carries (reply : Reply) (paramId : BitVec 16) (v : BitVec 32) : Prop :=
  Parsed.index ⟨reply, true⟩ = paramId ∧ Parsed.payload ⟨reply, true⟩ = v

/-- A thread that has taken `motor_mutex_` finds the fields it guards coherent until it changes
them. -/
theorem coherent_since_lock {C : State → Label m.system → Prop} {t : ℕ}
    {wait : List (Label m.system)} {c c₁ c₂ : Config m.system} (hok : m.discipline.Ok c)
    (hlock : Step c (.act t Action.lockMotor ()) c₁) (h : Path C c₁ wait c₂)
    (hwait : Performs t [] wait) : Coherent m c₂.state := by
  have hlocked : c₁.state.motorMutex = some t ∧ Coherent m c₁.state := by
    cases hlock with
    | act ch ht hs =>
        simp only [Motor.perform] at hs
        split_ifs at hs with hfree
        obtain ⟨-, rfl⟩ := Prod.mk.inj (Option.some.inj hs)
        exact ⟨rfl, (hok.inv.free hfree).untouched ⟨rfl, rfl, rfl, rfl, fun _ => ⟨rfl, rfl⟩⟩⟩
  have hstable : m.discipline.Stable t fun s => s.motorMutex = some t ∧ Coherent m s := by
    rintro s s' ⟨hm, hc⟩ hr
    exact ⟨hr.motor.mpr hm, hc.untouched (hr.held hm)⟩
  refine (path_keeps (discipline_kept m) hstable (step_ok (discipline_kept m) hok hlock) hlocked h
    (fun a r hl => ?_) hwait.not_call).2
  exact absurd (hwait.mem hl) List.not_mem_nil

/-- The parameter pair is that of a frame parsed since `prepare_wait`, if there was one. -/
theorem param_from_one_frame {C : State → Label m.system → Prop} {t : ℕ} {fn : Fn}
    {earlier wait : List (Label m.system)} {c : Config m.system}
    (h : Path C m.initial (earlier ++ .act t (Action.prepare fn .readParam) () :: wait) c)
    (hwait : Pursues t wait) (hc : Coherent m c.state) (hanswered : Answered .readParam wait) :
    ∃ u reply, .act u (Action.parse reply) true ∈ wait ∧
      m.protocol.isFeedbackFrame reply.frame m.motorId = true ∧
        m.protocol.getResponseType reply.frame = .readParam ∧
          Carries reply c.state.vars.status.readParamIndex
            c.state.vars.status.readParamPayload := by
  obtain ⟨-, i, hi, hexpected, hparsed⟩ := since_prepare h hwait
  obtain ⟨p, hp, htype⟩ := (matched_iff h hexpected hparsed).mpr hanswered
  have hmem : p ∈ m.paramReplies (c.state.waits i).parsed :=
    List.mem_filter.mpr ⟨hp, beq_iff_eq.mpr (htype.trans hexpected)⟩
  obtain ⟨q, hq⟩ := Option.isSome_iff_exists.mp
    (List.getLast?_isSome.mpr (List.ne_nil_of_mem hmem))
  obtain ⟨hqmem, hqtype⟩ := List.mem_filter.mp (List.mem_of_getLast? hq)
  obtain ⟨u, hl⟩ := mem_parses.mp (hparsed ▸ List.mem_map_of_mem hqmem)
  obtain ⟨hindex, hpayload⟩ := (hc i hi).param q hq
  exact ⟨u, q.reply, hl, parse_accepted h (List.mem_append_right _ (List.mem_cons_of_mem _ hl)),
    beq_iff_eq.mp hqtype, hindex.symm, hpayload.symm⟩

theorem Answered.mono {expected : FrameType} {log log' : List (Label m.system)}
    (h : Answered expected log) (hsub : ∀ l ∈ log, l ∈ log') : Answered expected log' := by
  obtain ⟨u, reply, hl, hreply⟩ := h
  exact ⟨u, reply, hsub _ hl, hreply⟩

theorem Pursues.mono {t : ℕ} {log log' : List (Label m.system)} (h : Pursues t log')
    (hsub : ∀ l ∈ log, l ∈ log') : Pursues t log :=
  ⟨fun a r hl => h.1 a r (hsub _ hl), fun op hl => h.2 op (hsub _ hl)⟩

/-- The pair read under the mutex after a look that saw the flag set. -/
theorem param_after_check {C : State → Label m.system → Prop} {t : ℕ} {fn : Fn}
    {earlier waited released locked : List (Label m.system)} {c c' : Config m.system}
    {check : Σ a : Action, a.Res} {paramId : BitVec 16} {v : BitVec 32}
    (h : Path C m.initial (earlier ++ .act t (Action.prepare fn .readParam) () ::
      ((waited ++ .act t check.1 check.2 :: released) ++ .act t Action.lockMotor () :: locked)) c)
    (hpursues : Pursues t
      ((waited ++ .act t check.1 check.2 :: released) ++ .act t Action.lockMotor () :: locked))
    (hcheck : Check check true) (hlocked : Performs t [] locked)
    (hread : Step c (.act t Action.readParam (paramId, v)) c') :
    ∃ u reply, .act u (Action.parse reply) true ∈
        (waited ++ .act t check.1 check.2 :: released) ++ .act t Action.lockMotor () :: locked ∧
      m.protocol.isFeedbackFrame reply.frame m.motorId = true ∧
        m.protocol.getResponseType reply.frame = .readParam ∧ Carries reply paramId v := by
  have hlook : Path C m.initial ((earlier ++ .act t (Action.prepare fn .readParam) () :: waited) ++
      .act t check.1 check.2 :: (released ++ .act t Action.lockMotor () :: locked)) c := by
    simpa using h
  have hlock : Path C m.initial ((earlier ++ .act t (Action.prepare fn .readParam) () ::
      (waited ++ .act t check.1 check.2 :: released)) ++ .act t Action.lockMotor () :: locked) c := by
    simpa using h
  obtain ⟨c₁, c₂, h₁, hlooks, -, -⟩ := hlook.cut
  obtain ⟨c₃, c₄, h₃, hlocks, -, h₄⟩ := hlock.cut
  -- What was parsed before the look was parsed before the read.
  have hanswered : Answered .readParam waited :=
    (check_iff h₁ (hpursues.mono fun l hl => by simp [hl]) hlooks hcheck).mp rfl
  have hcoherent :=
    coherent_since_lock (path_ok (discipline_kept m) (initial_ok m) h₃) hlocks h₄ hlocked
  have hpair : c.state.vars.status.readParamIndex = paramId ∧
      c.state.vars.status.readParamPayload = v := by
    cases hread with
    | act ch ht hs =>
        obtain ⟨hpair, -⟩ := Prod.mk.inj (Option.some.inj hs)
        exact Prod.mk.inj hpair
  obtain ⟨rfl, rfl⟩ := hpair
  exact param_from_one_frame h hpursues hcoherent (hanswered.mono fun l hl => by simp [hl])

/-- In the log up to the return of a call of `read_parameter_raw`: one parameter reply of this
motor, parsed since the call's `prepare_wait`, carries the parameter and the value. -/
def Fresh (t : ℕ) (paramId : BitVec 16) (v : BitVec 32) (log : List (Label m.system)) : Prop :=
  ∃ earlier start wait, log = earlier ++ .act t (Action.enter (.readParameterRaw paramId)) () ::
      (start ++ .act t (Action.prepare (.readParameterRaw paramId) .readParam) () :: wait) ∧
    (∀ fn, .act t (Action.enter fn) () ∉ start ++ wait) ∧
    ∃ u reply, .act u (Action.parse reply) true ∈ wait ∧
      m.protocol.isFeedbackFrame reply.frame m.motorId = true ∧
        m.protocol.getResponseType reply.frame = .readParam ∧ Carries reply paramId v

/-- **The value that `read_parameter_raw` returns** comes from one frame, parsed in the call. -/
theorem read_is_fresh {C : State → Label m.system → Prop} {t : ℕ} {paramId : BitVec 16}
    {v : BitVec 32} {log after : List (Label m.system)} {k : Config m.system}
    (h : Path C m.initial
      (log ++ .act t (Action.leave (.readParameterRaw paramId) (.value (some v))) () :: after) k) :
    Fresh t paramId v log := by
  obtain ⟨c, c', hlog, hleave, -, -⟩ := h.cut
  cases hleave with
  | act ch ht hs =>
      obtain ⟨before, op, since, tr, rfl, hsince, hafter⟩ := Path.at_act hlog ht
      obtain ⟨tr₀, frame, tr', check, htr', hcheck, rfl⟩ := read_leave hafter
      -- The call up to where it reads the pair, from its `prepare_wait`, up to where it takes
      -- the mutex for it, and up to its last look at the flag.
      obtain ⟨outer, call, rfl, -, hcall⟩ := performs_cut hsince
      obtain ⟨asked, rest, rfl, hasked, hrest⟩ := performs_cut hcall
      obtain ⟨start, wait, rfl, hstart, hwait⟩ := performs_cut hasked
      obtain ⟨woken, locked, rfl, hwoken, hlocked⟩ := performs_cut hwait
      obtain ⟨waited, released, rfl, hwaited, hreleased⟩ := performs_cut hwoken
      have hread : Path C m.initial (((before ++ .call t op :: (outer ++
          .act t (Action.enter (.readParameterRaw paramId)) () :: start)) ++
            .act t (Action.prepare (.readParameterRaw paramId) .readParam) () ::
              ((waited ++ .act t check.1 check.2 :: released) ++
                .act t Action.lockMotor () :: locked)) ++
            .act t Action.readParam (paramId, v) :: rest) c := by
        simpa using hlog
      obtain ⟨c₁, c₂, h₁, hparam, -, -⟩ := hread.cut
      have hpursues : Pursues t ((waited ++ .act t check.1 check.2 :: released) ++
          .act t Action.lockMotor () :: locked) := by
        refine pursues_of_performs hwait ?_
        simp only [List.forall_mem_append, List.forall_mem_cons]
        exact ⟨⟨⟨by simp, htr'.pursues⟩, hcheck.pursues, by simp⟩, by simp⟩
      obtain ⟨u, reply, hl, hreply⟩ := param_after_check h₁ hpursues hcheck hlocked hparam
      refine ⟨before ++ .call t op :: outer, start, ((waited ++ .act t check.1 check.2 :: released) ++
        .act t Action.lockMotor () :: locked) ++ .act t Action.readParam (paramId, v) :: rest,
        by simp, fun fn hl => ?_, u, reply, List.mem_append_left _ hl, hreply⟩
      have hmem := hcall.mem (a := .enter fn) (r := ()) (by
        rcases List.mem_append.mp hl with hl | hl
        · simp [hl]
        · rw [List.append_assoc, List.cons_append]
          exact List.mem_append_right _ (List.mem_cons_of_mem _ hl))
      cases htr' <;> cases hcheck <;> simp at hmem

/-- A read that is answered, up to its return. -/
def readAnswered (paramId : BitVec 16) (payload : BitVec 32) : Schedule .priv :=
  [.call 0 (Op.readParameterRaw paramId)] ++ asking 0 ++
    [.env (BusEvent.deliver (some (paramReply paramId payload)))] ++
    taking 1 7 ⟨paramReply paramId payload, some 0⟩ ++ go 0 7

theorem read_is_fresh_answered : ∃ (log : List (Label (Motor.sample .priv).system))
    (k : Config (Motor.sample .priv).system), Path Any (Motor.sample .priv).initial
      (log ++ [.act 0 (Action.leave (.readParameterRaw 0x7006) (.value (some 5))) ()]) k ∧
        Fresh 0 0x7006 5 log := by
  have h : ((Motor.sample .priv).initial.log Any (readAnswered 0x7006 5)).map
      (fun p => p.1.getLast?.bind returned) =
        some (some (0, .readParameterRaw 0x7006, .value (some 5))) := by
    decide +kernel
  obtain ⟨log, l, k, hpath, hl⟩ := log_path_last h
  obtain rfl := returned_eq_some.mp hl
  exact ⟨log, k, hpath, read_is_fresh hpath⟩

end

end Robstride
