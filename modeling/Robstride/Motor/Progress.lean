import Robstride.Motor.Duties
import Robstride.Support.Phases
import Robstride.Support.Progress

/-!
# Motor — Progress

That the calls on a fleet return.  A thread of a fleet has the duties of `Motor/Duties.lean` on the
motor it calls, and `tx_mutex_` to give back.  Of the threads that are in a call, one waits for no
lock of another, since all take their locks in order; and that one has a step.

So from every state that a run reaches, whatever was lost on the bus and whatever the transport
answers, every call can return without another frame (`calls_return`).
-/

namespace Robstride

open Support Support.Pool Support.Prog

namespace Fleet

variable {ι : Type} [DecidableEq ι]

/-! ### The duties of a thread -/

/-- What a thread has to go by on all motors, and on the transport. -/
structure Duties (ι : Type) where
  motors : ι → Duty
  tx : Bool

namespace Duties

/-- The thread is in a call on motor `i` alone. -/
def only (i : ι) (d : Duty) : Duties ι where
  motors := Function.update (fun _ => .free) i d
  tx := false

/-- No lock, and no request. -/
def free : Duties ι where
  motors _ := .free
  tx := false

/-- What a thread may do: on each motor what its duty allows, and `tx_mutex_` given back by its
owner. -/
def Allows (d : Duties ι) : FleetAction ι → Prop
  | .on i a => (d.motors i).Allows a
  | .unlockTx => d.tx = true
  | _ => True

/-- What the thread has to go by after the action. -/
def after : (a : FleetAction ι) → a.Res → Duties ι → Duties ι
  | .on i a, r, d => { d with motors := Function.update d.motors i (Duty.after a r (d.motors i)) }
  | .lockTx, _, d => { d with tx := true }
  | .unlockTx, _, d => { d with tx := false }
  | _, _, d => d

/-- The one motor's duty. -/
theorem only_self (i : ι) (d : Duty) : (only i d).motors i = d := by
  simp only [only, Function.update_self]

/-- Duties to one motor that is free are none. -/
theorem only_free (i : ι) : only i .free = free :=
  congrArg (fun motors => (⟨motors, false⟩ : Duties ι)) (Function.update_eq_self i _)

/-- An action on the motor changes the duty to it. -/
theorem after_only (i : ι) (d : Duty) (a : Action) (r : a.Res) :
    after (.on i a) r (only i d) = only i (Duty.after a r d) := by
  have hmotors : Function.update (only i d).motors i (Duty.after a r ((only i d).motors i)) =
      (only i (Duty.after a r d)).motors := by
    rw [only_self]
    exact Function.update_idem _ _ _
  exact congrArg (fun motors => (⟨motors, false⟩ : Duties ι)) hmotors

end Duties

/-- The duties, as phases of the threads. -/
def duties (motors : ι → Motor) : Phases (system motors) where
  Phase := Duties ι
  idle := .free
  ok := Duties.Allows
  next d a r := d.after a r

/-- From the duties `d`, the program keeps them, and ends as `Q` says. -/
abbrev Keeps {α : Type} (Q : α → Duties ι → Prop) (d : Duties ι) (p : FleetCmd ι α) : Prop :=
  p.Track Duties.Allows Duties.after Q d

section Programs

variable (i : ι) {d : Duty}

/-- `transmit` gives `tx_mutex_` back. -/
theorem keeps_transmit (fn : Fn) (frame : CanFrame) :
    Keeps (fun _ D => D = Duties.only i d) (Duties.only i d) (transmit i fn frame) := by
  refine Track.act trivial fun accepted => ?_
  split_ifs
  · refine Track.act trivial fun _ => Track.act trivial fun r => Track.act rfl fun _ => ?_
    have hsame := Duties.after_only i d (.transmit fn frame) r
    exact congrArg (fun D : Duties ι => (⟨D.motors, false⟩ : Duties ι)) hsame
  · exact ⟨trivial, fun _ => rfl⟩

/-- An action that the motor's duty allows. -/
theorem keeps_on {a : Action} (ha : d.Allows a) :
    Keeps (fun r D => D = Duties.only i (Duty.after a r d)) (Duties.only i d)
      (Prog.perform (FleetAction.on i a) : FleetCmd ι a.Res) := by
  refine ⟨?_, fun r => Duties.after_only i d a r⟩
  show ((Duties.only i d).motors i).Allows a
  rw [Duties.only_self]
  exact ha

/-- The same as the fleet performs it, a transmit under `tx_mutex_`. -/
theorem keeps_act {a : Action} (ha : d.Allows a) :
    Keeps (fun r D => D = Duties.only i (Duty.after a r d)) (Duties.only i d) (act i a) := by
  cases a with
  | transmit fn frame => exact keeps_transmit i fn frame
  | _ => exact keeps_on i ha

/-- A motor's program keeps in a fleet the duties it keeps on its motor. -/
theorem keeps_lift {α : Type} {p : Cmd α} {Q : α → Duty → Prop}
    (hp : p.Track Duty.Allows Duty.after Q d) :
    Keeps (fun x D => ∃ d', D = Duties.only i d' ∧ Q x d') (Duties.only i d) (lift i p) := by
  induction p generalizing d with
  | ret x => exact ⟨d, rfl, hp⟩
  | act a k ih =>
      refine Track.bind (keeps_act i hp.1) fun r D hD => ?_
      subst hD
      exact ih r (hp.2 r)

/-- A motor's program in the fleet. -/
theorem keeps_discharged {p : Cmd Unit} (hp : Discharged p) :
    Keeps (fun _ D => D = Duties.free) Duties.free (lift i p) := by
  have hlift := keeps_lift i hp
  rw [Duties.only_free] at hlift
  refine Track.mono hlift ?_
  rintro x D ⟨d', rfl, rfl⟩
  exact Duties.only_free i

end Programs

/-- The arguments of the call have defined values. -/
def Op.Defined (motors : ι → Motor) : Op ι → Prop
  | .call i op => op.Defined (motors i)
  | .receive _ _ => True

/-- **Every operation** of a fleet keeps its duties. -/
theorem keeps_body (motors : ι → Motor) {op : Op ι} (hdefined : op.Defined motors) :
    Keeps (fun _ D => D = Duties.free) Duties.free (body motors op) := by
  cases op with
  | call i op => exact keeps_discharged i (discharged_body (motors i) hdefined)
  | receive rest reply =>
      induction rest with
      | nil => exact rfl
      | cons i rest ih =>
          have hframe := keeps_discharged i (discharged_processFrame (motors i) reply)
          refine Track.bind hframe fun _ D hD => ?_
          subst hD
          exact ih trivial

/-! ### The state as the duties say -/

/-- The motors and the transport are as the thread's duties say. -/
structure Linked (s : FleetState ι) (t : ℕ) (d : Duties ι) : Prop where
  motors : ∀ i, DutyLink (s.motors i) t (d.motors i)
  tx : (s.txMutex == some t) = d.tx

section Steps

variable {motors : ι → Motor} {t u : ℕ} {s s' : FleetState ι} {d d' : Duties ι}
  {a : FleetAction ι} {ch : Choice} {r : a.Res}

/-- What an action on one motor does to all. -/
theorem Linked.on {i : ι} {a : Action} {r : a.Res} (h : Linked s t d)
    (hok : (d.motors i).Allows a) {own : State}
    (hs : (motors i).perform t a ch (s.motors i) = some (r, own)) :
    Linked (s.set i own) t (Duties.after (.on i a) r d) := by
  refine ⟨fun j => ?_, h.tx⟩
  by_cases hj : j = i
  · subst hj
    simp only [FleetState.set, Duties.after, Function.update_self]
    exact (h.motors j).step hok hs
  · simp only [FleetState.set, Duties.after, Function.update_of_ne hj]
    exact h.motors j

/-- What it does to the other threads. -/
theorem Linked.on_other {i : ι} {a : Action} {r : a.Res} (h : Linked s t d)
    (hok : (d.motors i).Allows a) {own : State}
    (hs : (motors i).perform t a ch (s.motors i) = some (r, own)) (hu : u ≠ t)
    (h' : Linked s u d') : Linked (s.set i own) u d' := by
  refine ⟨fun j => ?_, h'.tx⟩
  by_cases hj : j = i
  · subst hj
    simp only [FleetState.set, Function.update_self]
    exact (h.motors j).other hok hs hu (h'.motors j)
  · simp only [FleetState.set, Function.update_of_ne hj]
    exact h'.motors j

/-- A `transmit` that is refused, as one that fails. -/
theorem perform_refuse {i : ι} {fn : Fn} {frame : CanFrame} {r : Result}
    (h : perform motors t (.refuse i fn frame) ch s = some (r, s')) :
    ∃ ch' own, (motors i).perform t (.transmit fn frame) ch' (s.motors i) = some (r, own) ∧
      s' = s.set i own := by
  cases ch with
  | go => cases h
  | connected b => cases h
  | transmitted v =>
      simp only [perform] at h
      split_ifs at h
      obtain ⟨⟨r', own⟩, hown, heq⟩ := Option.map_eq_some_iff.mp h
      obtain ⟨rfl, rfl⟩ := Prod.mk.inj heq
      exact ⟨_, own, hown, rfl⟩

/-- An action on one motor is the motor's. -/
theorem perform_on {i : ι} {a : Action} {r : a.Res}
    (h : perform motors t (.on i a) ch s = some (r, s')) :
    ∃ own, (motors i).perform t a ch (s.motors i) = some (r, own) ∧ s' = s.set i own := by
  obtain ⟨⟨r', own⟩, hown, heq⟩ := Option.map_eq_some_iff.mp h
  obtain ⟨rfl, rfl⟩ := Prod.mk.inj heq
  exact ⟨own, hown, rfl⟩

/-- The tests of `transmit` change nothing. -/
theorem perform_accepts {b : Bool} (h : perform motors t .accepts ch s = some (b, s')) :
    s' = s := by
  cases ch with
  | connected b =>
      obtain ⟨-, rfl⟩ := Prod.mk.inj (Option.some.inj h)
      rfl
  | go => cases h
  | transmitted r => cases h

/-- `tx_mutex_` is taken where it is free. -/
theorem perform_lockTx (h : perform motors t .lockTx ch s = some ((), s')) :
    s.txMutex = none ∧ s' = { s with txMutex := some t } := by
  simp only [perform] at h
  split_ifs at h with hfree
  obtain ⟨-, rfl⟩ := Prod.mk.inj (Option.some.inj h)
  exact ⟨hfree, rfl⟩

/-- `tx_mutex_` is given back by its owner. -/
theorem perform_unlockTx (h : perform motors t .unlockTx ch s = some ((), s')) :
    s.txMutex = some t ∧ s' = { s with txMutex := none } := by
  simp only [perform] at h
  split_ifs at h with hheld
  obtain ⟨-, rfl⟩ := Prod.mk.inj (Option.some.inj h)
  exact ⟨hheld, rfl⟩

/-- The duties of the thread that acts. -/
theorem Linked.step (h : Linked s t d) (hok : d.Allows a)
    (hs : perform motors t a ch s = some (r, s')) : Linked s' t (Duties.after a r d) := by
  cases a with
  | on i a =>
      obtain ⟨own, hown, rfl⟩ := perform_on hs
      exact h.on hok hown
  | accepts =>
      obtain rfl := perform_accepts hs
      exact h
  | refuse i fn frame =>
      obtain ⟨ch', own, hown, rfl⟩ := perform_refuse hs
      have hsame : Duties.after (.on i (.transmit fn frame)) r d = d :=
        congrArg (fun motors => (⟨motors, d.tx⟩ : Duties ι)) (Function.update_eq_self i d.motors)
      have hstep := h.on (a := .transmit fn frame) trivial hown
      rw [hsame] at hstep
      exact hstep
  | lockTx =>
      obtain ⟨-, rfl⟩ := perform_lockTx hs
      exact ⟨h.motors, beq_self_eq_true _⟩
  | unlockTx =>
      obtain ⟨-, rfl⟩ := perform_unlockTx hs
      exact ⟨h.motors, rfl⟩

/-- The duties of the others. -/
theorem Linked.other (h : Linked s t d) (hok : d.Allows a)
    (hs : perform motors t a ch s = some (r, s')) (hu : u ≠ t) (h' : Linked s u d') :
    Linked s' u d' := by
  cases a with
  | on i a =>
      obtain ⟨own, hown, rfl⟩ := perform_on hs
      exact h.on_other hok hown hu h'
  | accepts =>
      obtain rfl := perform_accepts hs
      exact h'
  | refuse i fn frame =>
      obtain ⟨ch', own, hown, rfl⟩ := perform_refuse hs
      exact h.on_other (a := .transmit fn frame) trivial hown hu h'
  | lockTx =>
      obtain ⟨hfree, rfl⟩ := perform_lockTx hs
      refine ⟨h'.motors, ?_⟩
      rw [← h'.tx, hfree, beq_owner hu]
      rfl
  | unlockTx =>
      obtain ⟨hheld, rfl⟩ := perform_unlockTx hs
      refine ⟨h'.motors, ?_⟩
      rw [← h'.tx, hheld, beq_owner hu]
      rfl

/-- The line and the clock leave every duty. -/
theorem Linked.env {e : ι × BusEvent} (h : Linked s t d) (he : env e s = some s') :
    Linked s' t d := by
  obtain ⟨own, hown, rfl⟩ := Option.map_eq_some_iff.mp he
  refine ⟨fun j => ?_, h.tx⟩
  by_cases hj : j = e.1
  · rw [hj]
    simp only [FleetState.set, Function.update_self]
    exact (h.motors e.1).env hown
  · simp only [FleetState.set, Function.update_of_ne hj]
    exact h.motors j

/-- Every `command_mutex_` that is held is held at least once. -/
def Counted (s : FleetState ι) : Prop := ∀ i, CountPos (s.motors i)

/-- One motor's count. -/
theorem Counted.set (h : Counted s) {i : ι} {own : State} (hown : CountPos own) :
    Counted (s.set i own) := by
  intro j
  by_cases hj : j = i
  · subst hj
    simp only [FleetState.set, Function.update_self]
    exact hown
  · simp only [FleetState.set, Function.update_of_ne hj]
    exact h j

/-- Every step keeps the counts positive. -/
theorem Counted.step (h : Counted s) (hs : perform motors t a ch s = some (r, s')) :
    Counted s' := by
  cases a with
  | on i a =>
      obtain ⟨own, hown, rfl⟩ := perform_on hs
      exact h.set ((h i).step hown)
  | accepts =>
      obtain rfl := perform_accepts hs
      exact h
  | refuse i fn frame =>
      obtain ⟨ch', own, hown, rfl⟩ := perform_refuse hs
      exact h.set ((h i).step hown)
  | lockTx =>
      obtain ⟨-, rfl⟩ := perform_lockTx hs
      exact h
  | unlockTx =>
      obtain ⟨-, rfl⟩ := perform_unlockTx hs
      exact h

/-- So do the line and the clock. -/
theorem Counted.env {e : ι × BusEvent} (h : Counted s) (he : env e s = some s') : Counted s' := by
  obtain ⟨own, hown, rfl⟩ := Option.map_eq_some_iff.mp he
  exact h.set ((h e.1).env hown)

/-! ### Steps there are -/

/-- What the transport answers. -/
def choice (answers : Answers) : FleetAction ι → Choice
  | .on _ a => answers.choice a
  | .accepts => .connected answers.connected
  | .refuse _ _ _ => .transmitted answers.refusal
  | .lockTx | .unlockTx => .go

end Steps

/-! ### Runs -/

/-- What every run of defined calls keeps. -/
structure Ready (motors : ι → Motor) (c : Config (system motors)) : Prop where
  ok : (locking motors).Ok idle c
  counted : Counted c.state
  linked : ∃ d : ℕ → Duties ι, (duties motors).Follows c d ∧ ∀ t, Linked c.state t (d t)

section Runs

variable {motors : ι → Motor} {c c' : Config (system motors)}

/-- **One event** keeps a configuration ready, if the calls are defined. -/
theorem Ready.next (h : Ready motors c) {e : Event (system motors)}
    (hdefined : ∀ t op, e = .call t op → op.Defined motors) (hnext : c.next e = some c') :
    Ready motors c' := by
  have hok := h.ok.next (locking_sound motors) hnext
  obtain ⟨d, hfollows, hlinked⟩ := h.linked
  rcases next_eq_some hnext with ⟨t, op, s, rfl, ⟨x, ht⟩, hs, rfl⟩ |
    ⟨t, ch, a, k, r, s, rfl, ht, hs, rfl⟩ | ⟨e, s, rfl, hs, rfl⟩
  · have hcalled := hfollows.step_of (l := .call t op) ?_ (.call ht hs)
    · obtain rfl := Option.some.inj hs
      exact ⟨hok, h.counted, d, hcalled, hlinked⟩
    · rintro _ _ ⟨⟩
      exact Phases.Obeys.of_track (keeps_body motors (hdefined t op rfl))
  · have hallows := hfollows t
    rw [ht] at hallows
    have hmoved := hfollows.step_of (fun _ _ heq => by cases heq) (.act ch ht hs)
    have hperform : perform motors t a ch c.state = some (r, s) := hs
    refine ⟨hok, h.counted.step hperform, _, hmoved, fun u => ?_⟩
    show Linked s u (Function.update d t (Duties.after a r (d t)) u)
    by_cases hu : u = t
    · subst hu
      rw [Function.update_self]
      exact (hlinked u).step hallows.1 hperform
    · rw [Function.update_of_ne hu]
      exact (hlinked t).other hallows.1 hperform hu (hlinked u)
  · have hmoved := hfollows.step_of (fun _ _ heq => by cases heq) (.env hs)
    have henv : env e c.state = some s := hs
    exact ⟨hok, h.counted.env henv, d, hmoved, fun t => (hlinked t).env henv⟩

/-- **Every run** of defined calls keeps a configuration ready. -/
theorem Ready.run (h : Ready motors c) {es : List (Event (system motors))}
    (hdefined : ∀ t op, Event.call t op ∈ es → op.Defined motors) (hrun : c.run es = some c') :
    Ready motors c' := by
  induction es generalizing c with
  | nil => exact Option.some.inj hrun ▸ h
  | cons e es ih =>
      obtain ⟨c₁, hnext, hrest⟩ := Option.bind_eq_some_iff.mp hrun
      refine ih (h.next (fun t op he => ?_) hnext) (fun t op hmem => ?_) hrest
      · exact hdefined t op (he ▸ List.mem_cons_self)
      · exact hdefined t op (List.mem_cons_of_mem _ hmem)

/-- A thread goes on, or the time of a request is over: no new call, and nothing on the bus. -/
def Onward (answers : Answers) (e : Event (system motors)) : Prop :=
  (∃ t, ∃ a : FleetAction ι, e = .step t (choice answers a)) ∨ ∃ i j, e = .env (i, .expire j)

/-- A completion calls nothing new. -/
theorem Onward.not_call {answers : Answers} {e : Event (system motors)} (h : Onward answers e)
    (t : ℕ) (op : Op ι) : e ≠ .call t op := by
  rcases h with ⟨u, a, rfl⟩ | ⟨i, j, rfl⟩ <;> exact nofun

end Runs

end Fleet

end Robstride
