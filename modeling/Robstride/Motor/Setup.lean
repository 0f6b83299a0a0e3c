import Robstride.Motor.Operations
import Robstride.Support.Blocks

/-!
# Motor — Setup

`setup_mode` makes up to four parameter writes, and each of them takes `command_mutex_` and
releases it again.  What the calls of `setup_mode` put on the bus is a concatenation of one block
for each call as long as no call writes while another is between its first write and its return
(`setup_calls_in_blocks`).  Two calls that overlap may mix their writes
(`setup_calls_interleave`).
-/

namespace Robstride

open Support Support.Pool Support.Pool.Discipline

/-- When a call of `setup_mode` transmits, every other call that has written has returned. -/
def SetupAlone (s : State) (t : ℕ) : Action → Prop
  | .transmit _ _ => ∀ call ∈ (s.locals t).setup, ∀ write ∈ s.setupWrites,
      write.1 = call ∨ write.1 ∈ s.setupsReturned
  | _ => True

instance (s : State) (t : ℕ) : (a : Action) → Decidable (SetupAlone s t a)
  | .transmit _ _ => inferInstanceAs (Decidable (∀ _ ∈ _, ∀ _ ∈ _, _))
  | .enter _ | .leave _ _ | .lockCommand | .unlockCommand | .lockMotor | .unlockMotor
  | .isConnected | .prepare _ _ | .startWait _ | .wake | .readParam | .parse _ | .fetchAdd
  | .fetchSub _ | .store _ | .expectedType | .notify | .countUnknown | .undefined => .isTrue trivial

/-! ### The invariant -/

/-- Only the call that wrote last may write again. -/
structure SetupInv (s : State) : Prop where
  /-- Calls are numbered in order, so a call that starts has not written. -/
  open_lt : ∀ u call, (s.locals u).setup = some call → call < s.setups
  write_lt : ∀ call ∈ s.setupWrites.map Prod.fst, call < s.setups
  returned_lt : ∀ call ∈ s.setupsReturned, call < s.setups
  own : ∀ t u call, (s.locals t).setup = some call → (s.locals u).setup = some call → t = u
  returned : ∀ u call, (s.locals u).setup = some call → call ∉ s.setupsReturned
  last : ∀ u call, (s.locals u).setup = some call → call ∈ s.setupWrites.map Prod.fst →
    (s.setupWrites.map Prod.fst).getLast? = some call
  blocks : InBlocks s.setupWrites

theorem initial_setupInv (m : Motor) : SetupInv m.initialState :=
  ⟨nofun, nofun, nofun, nofun, nofun, nofun, .nil⟩

section

variable {m : Motor} {t : ℕ} {s s' : State}

/-- A step that neither starts, ends nor serves a call. -/
theorem SetupInv.congr (h : SetupInv s) (hlocals : ∀ u, (s'.locals u).setup = (s.locals u).setup)
    (hsetups : s'.setups = s.setups) (hwrites : s'.setupWrites = s.setupWrites)
    (hreturned : s'.setupsReturned = s.setupsReturned) : SetupInv s' := by
  obtain ⟨hopen, hwrite, hret, hown, hopenret, hlast, hblocks⟩ := h
  constructor <;> simp only [hlocals, hsetups, hwrites, hreturned] <;> assumption

/-- A change of a thread's own record leaves every call as it is, if it leaves the thread's. -/
theorem withLocal_setup {f : Local → Local} (hf : ∀ l, (f l).setup = l.setup) (u : ℕ) :
    ((s.withLocal t f).locals u).setup = (s.locals u).setup := by
  by_cases hu : u = t
  · subst hu
    rw [withLocal_locals, hf]
  · simp [State.withLocal, hu]

/-- A call starts with a number of its own. -/
theorem SetupInv.start (h : SetupInv s) : SetupInv
    { s.withLocal t (fun l => { l with wait := none, setup := some s.setups }) with
      setups := s.setups + 1 } := by
  have hlocal : ∀ u call, ((s.withLocal t fun l =>
      { l with wait := none, setup := some s.setups }).locals u).setup = some call →
        u = t ∧ call = s.setups ∨ u ≠ t ∧ (s.locals u).setup = some call := by
    intro u call hu
    by_cases hut : u = t
    · subst hut
      rw [withLocal_locals] at hu
      exact .inl ⟨rfl, (Option.some.inj hu).symm⟩
    · exact .inr ⟨hut, by simpa [State.withLocal, hut] using hu⟩
  -- No call has the number of the new one: all are lower.
  refine ⟨fun u call hu => ?_, fun call hc => (h.write_lt call hc).trans (Nat.lt_succ_self _),
    fun call hc => (h.returned_lt call hc).trans (Nat.lt_succ_self _), fun u v call hu hv => ?_,
    fun u call hu => ?_, fun u call hu hc => ?_, h.blocks⟩
  · rcases hlocal u call hu with ⟨-, rfl⟩ | ⟨-, hu⟩
    · exact Nat.lt_succ_self _
    · exact (h.open_lt u call hu).trans (Nat.lt_succ_self _)
  · rcases hlocal u call hu with ⟨hut, hcall⟩ | ⟨-, hold⟩ <;>
      rcases hlocal v call hv with ⟨hvt, hcall'⟩ | ⟨-, hold'⟩
    · exact hut.trans hvt.symm
    · exact absurd (hcall ▸ h.open_lt v call hold') (lt_irrefl _)
    · exact absurd (hcall' ▸ h.open_lt u call hold) (lt_irrefl _)
    · exact h.own u v call hold hold'
  · rcases hlocal u call hu with ⟨-, rfl⟩ | ⟨-, hu⟩
    · exact fun hret => absurd (h.returned_lt _ hret) (lt_irrefl _)
    · exact h.returned u call hu
  · rcases hlocal u call hu with ⟨-, rfl⟩ | ⟨-, hu⟩
    · exact absurd (h.write_lt _ hc) (lt_irrefl _)
    · exact h.last u call hu hc

/-- A call returns. -/
theorem SetupInv.close (h : SetupInv s) (fn : Fn) : SetupInv (s.close t fn) := by
  unfold State.close
  split_ifs
  · have hlocal : ∀ u call, ((s.withLocal t fun l =>
        { l with wait := none, setup := none }).locals u).setup = some call →
          u ≠ t ∧ (s.locals u).setup = some call := by
      intro u call hu
      by_cases hut : u = t
      · subst hut
        rw [withLocal_locals] at hu
        cases hu
      · exact ⟨hut, by simpa [State.withLocal, hut] using hu⟩
    refine ⟨fun u call hu => h.open_lt u call (hlocal u call hu).2, h.write_lt, fun call hc => ?_,
      fun u v call hu hv => h.own u v call (hlocal u call hu).2 (hlocal v call hv).2,
      fun u call hu hc => ?_, fun u call hu => h.last u call (hlocal u call hu).2, h.blocks⟩
    · rcases List.mem_append.mp hc with hc | hc
      · exact h.returned_lt call hc
      · exact h.open_lt t call (Option.mem_toList.mp hc)
    · obtain ⟨hut, hu⟩ := hlocal u call hu
      rcases List.mem_append.mp hc with hc | hc
      · exact h.returned u call hu hc
      · exact hut (h.own u t call hu (Option.mem_toList.mp hc))
  · exact h.congr (withLocal_setup fun _ => rfl) rfl rfl rfl

/-- A call writes while no other is under way that has written. -/
theorem SetupInv.write (h : SetupInv s) {fn : Fn} {frame : CanFrame}
    (halone : SetupAlone s t (.transmit fn frame)) : SetupInv (s.recordSent t fn frame) := by
  cases hcall : (s.locals t).setup with
  | none => exact h.congr (fun _ => rfl) rfl (by simp [State.recordSent, hcall]) rfl
  | some call =>
      have hwrites : (s.recordSent t fn frame).setupWrites = s.setupWrites ++ [(call, frame)] := by
        simp [State.recordSent, hcall]
      have hothers : ∀ u other, (s.locals u).setup = some other →
          other ∈ s.setupWrites.map Prod.fst → other = call := by
        intro u other hu hother
        obtain ⟨write, hwrite, rfl⟩ := List.mem_map.mp hother
        exact (halone call hcall write hwrite).resolve_right (h.returned u _ hu)
      refine ⟨h.open_lt, fun c hc => ?_, h.returned_lt, h.own, h.returned, fun u other hu hc => ?_,
        ?_⟩
      · rw [hwrites, List.map_append] at hc
        rcases List.mem_append.mp hc with hc | hc
        · exact h.write_lt c hc
        · exact List.mem_singleton.mp hc ▸ h.open_lt t call hcall
      · rw [hwrites, List.map_append] at hc ⊢
        have hother : other = call := by
          rcases List.mem_append.mp hc with hc | hc
          · exact hothers u other hu hc
          · exact List.mem_singleton.mp hc
        simp [hother]
      · rw [hwrites]
        by_cases hfirst : call ∈ s.setupWrites.map Prod.fst
        · exact h.blocks.further (h.last t call hcall hfirst)
        · exact h.blocks.first hfirst

/-- What one step preserves. -/
theorem SetupInv.step {a : Action} (h : SetupInv s) (halone : SetupAlone s t a)
    (heffect : Effect m t s a s') : SetupInv s' := by
  cases heffect with
  | enterSetup => exact h.start
  | enter fn hfn => exact h.congr (withLocal_setup fun _ => rfl) rfl rfl rfl
  | leave fn ret =>
      have hwait : SetupInv (s.withWaitOf t fun w => { w with result := some ret }) :=
        h.congr (fun _ => rfl) rfl rfl rfl
      exact hwait.close fn
  | sent fn frame => exact (h.write halone).congr (fun _ => rfl) rfl rfl rfl
  | prepare fn expected =>
      refine h.congr (fun u => ?_) rfl rfl rfl
      exact withLocal_setup (s := s) (f := fun l => { l with wait := some s.next }) (fun _ => rfl) u
  | unsent | startWait | parse | fetchAdd | fetchSub | store =>
      exact h.congr (fun _ => rfl) rfl rfl rfl
  | other hsame =>
      exact h.congr (fun _ => by rw [hsame.locals]) hsame.setups hsame.setupWrites
        hsame.setupsReturned

end

/-- **What `setup_mode` puts on the bus** is a concatenation of one block for each call, in every
run in which no call writes while another is between its first write and its return. -/
theorem setup_calls_in_blocks {m : Motor} {es : List (Event m.system)} {k : Config m.system}
    (hmeets : Meets SetupAlone m.initial es)
    (hrun : m.initial.run es = some k) : InBlocks k.state.setupWrites := by
  have hinv : SetupInv k.state := by
    refine run_induction (discipline_kept m) (C := SetupAlone) (P := SetupInv) ?_ ?_ ?_
      (initial_ok m) (initial_setupInv m) hmeets hrun
    · intro s t a ch r s' _ _ halone hP h _
      exact hP.step halone (perform_effect h)
    · intro s t op s' _ hP h
      obtain ⟨replies, rfl⟩ := call_effect h
      exact hP.congr (fun _ => rfl) rfl rfl rfl
    · intro s e s' _ hP h
      rcases env_effect h with ⟨arrived, received, replies, rfl⟩ | ⟨i, -, rfl⟩ <;>
        exact hP.congr (fun _ => rfl) rfl rfl rfl
  exact hinv.blocks

/-- Two threads call `setup_mode` for speed control. -/
def twoSetups (p : Protocol) : Schedule p :=
  let limit : CFloat := ⟨0, .fin 0⟩
  [.call 0 (Op.setupMode .speed limit limit limit), .call 1 (Op.setupMode .speed limit limit limit)]
    ++ go 0 1 ++ go 1 1

theorem setup_calls_in_blocks_two : ∃ k, (Motor.sample .priv).initial.run
      (twoSetups .priv ++ writing 0 ++ writing 0 ++ writing 0 ++ go 0 1 ++ writing 1) = some k ∧
    k.state.setupWrites.map Prod.fst = [0, 0, 0, 1] ∧ InBlocks k.state.setupWrites := by
  have h : ((Motor.sample .priv).initial.run
      (twoSetups .priv ++ writing 0 ++ writing 0 ++ writing 0 ++ go 0 1 ++ writing 1)).map
        (fun k => k.state.setupWrites.map Prod.fst) = some [0, 0, 0, 1] := by decide
  obtain ⟨k, hrun, hwrites⟩ := Option.map_eq_some_iff.mp h
  exact ⟨k, hrun, hwrites, setup_calls_in_blocks (by decide) hrun⟩

/-- **Two calls that overlap** may mix their writes: the second writes its run mode between the
run mode and the current limit of the first. -/
theorem setup_calls_interleave : ¬ ∀ (m : Motor) (es : List (Event m.system)) (k : Config m.system),
    m.initial.run es = some k → InBlocks k.state.setupWrites := by
  intro hall
  have h : ((Motor.sample .priv).initial.run
      (twoSetups .priv ++ writing 0 ++ writing 1 ++ writing 0)).map
        (fun k => k.state.setupWrites.map Prod.fst) = some [0, 1, 0] := by decide
  obtain ⟨k, hrun, hwrites⟩ := Option.map_eq_some_iff.mp h
  have hsub : [0, 1, 0].Sublist (k.state.setupWrites.map Prod.fst) := by rw [hwrites]
  exact absurd ((hall _ _ k hrun).eq_of_between hsub) (by decide)

end Robstride
