import Robstride.Motor.Operations

/-!
# Motor — Overrun

`unacknowledged_commands_` counts the control commands that `check_overrun` let pass, and every
frame that `process_frame` parses takes one off.  There should never be more than `overrun_limit`
control commands without a reply of their own (`WithinLimit`).  So it is, as long as each frame
parsed is the reply to one of them, or comes while the counter is not positive or above the number
of slots they hold, and no command is counted between the two steps that reset the counter or at
the largest integer (`within_limit`).  Otherwise the reply to a `ping` is enough to let one
command too many pass (`ping_frees_slot`).
-/

namespace Robstride

open Support Support.Pool Support.Pool.Discipline

/-! ### Slots -/

/-- The slots of the counter that control commands hold: those on the line without a reply of
their own, and those about to be transmitted. -/
def State.slots (s : State) : ℕ := s.unanswered.length + s.reserved.length

/-- The counter as the signed number it is. -/
def State.pending (s : State) : ℤ := s.vars.unacknowledgedCommands.toInt

/-- At most `overrun_limit` control commands are without a reply of their own, and each holds a
slot of the counter, unless `process_frame` is just resetting it. -/
def WithinLimit (m : Motor) (s : State) : Prop :=
  s.unanswered.length ≤ m.overrunLimit.toNat ∧
    (s.clearing = false → (s.unanswered.length : ℤ) ≤ s.pending)

/-- A frame takes no slot that a control command holds, other than the one it answers; and a
command is counted while the counter tells the slots. -/
def SlotsKept (s : State) (_ : ℕ) : Action → Prop
  | .fetchSub reply =>
      (∃ n ∈ reply.answers, n ∈ s.unanswered) ∨ s.pending ≤ 0 ∨ (s.slots : ℤ) < s.pending
  | .fetchAdd => s.clearing = false ∧ s.vars.unacknowledgedCommands ≠ BitVec.intMax 32
  | _ => True

instance (s : State) (t : ℕ) : (a : Action) → Decidable (SlotsKept s t a)
  | .fetchSub reply => inferInstanceAs (Decidable ((∃ n ∈ reply.answers, _) ∨ _ ∨ _))
  | .fetchAdd => inferInstanceAs (Decidable (_ ∧ _))
  | .enter _ | .leave _ _ | .lockCommand | .unlockCommand | .lockMotor | .unlockMotor
  | .isConnected | .prepare _ _ | .startWait _ | .wake | .readParam | .transmit _ _ | .parse _
  | .store _ | .expectedType | .notify | .countUnknown | .undefined => .isTrue trivial

/-! ### Counting -/

/-- What the counter says of the slots: there are no more than the limit, the counter is no
lower, and it is only reset while there are none. -/
structure Counts (limit slots pending : ℤ) (clearing : Bool) : Prop where
  nonneg : 0 ≤ slots
  limit : slots ≤ limit
  counted : clearing = false → slots ≤ pending
  clearing : clearing = true → slots = 0

namespace Counts

variable {limit slots slots' pending : ℤ} {clearing clearing' : Bool}

/-- Slots are given up. -/
theorem fewer (h : Counts limit slots pending clearing) (h₀ : 0 ≤ slots') (hle : slots' ≤ slots) :
    Counts limit slots' pending clearing :=
  ⟨h₀, hle.trans h.limit, fun hc => hle.trans (h.counted hc),
    fun hc => le_antisymm (hle.trans (h.clearing hc).le) h₀⟩

/-- A command is counted, and is over the limit. -/
theorem overLimit (h : Counts limit slots pending false) : Counts limit slots (pending + 1) false :=
  ⟨h.nonneg, h.limit, fun hc => (h.counted hc).trans (Int.le_add_one le_rfl), nofun⟩

/-- A command is counted, and takes a slot. -/
theorem take (h : Counts limit slots pending false) (hlimit : pending + 1 ≤ limit) :
    Counts limit (slots + 1) (pending + 1) false := by
  have hcounted := h.counted rfl
  have hnonneg := h.nonneg
  exact ⟨by omega, by omega, fun _ => by omega, nofun⟩

/-- The frame that answers a command gives its slot back. -/
theorem giveBack (h : Counts limit slots pending clearing) (hpos : 0 < slots) :
    0 < pending ∧ Counts limit (slots - 1) (pending - 1) false := by
  have hlimit := h.limit
  cases hc : clearing with
  | true => exact absurd (h.clearing hc) hpos.ne'
  | false =>
      have hcounted := h.counted hc
      exact ⟨by omega, by omega, by omega, fun _ => by omega, nofun⟩

/-- Another frame comes while the counter is above the slots. -/
theorem above (h : Counts limit slots pending clearing) (habove : slots < pending) :
    Counts limit slots (pending - 1) false :=
  ⟨h.nonneg, h.limit, fun _ => Int.le_sub_one_of_lt habove, nofun⟩

/-- Another frame comes while the counter is not positive, and it is to be reset. -/
theorem empty (h : Counts limit slots pending clearing) (hpending : pending ≤ 0) (x : ℤ) :
    Counts limit slots x true := by
  have hnonneg := h.nonneg
  refine ⟨h.nonneg, h.limit, nofun, fun _ => ?_⟩
  cases hc : clearing with
  | true => exact h.clearing hc
  | false => exact le_antisymm ((h.counted hc).trans hpending) hnonneg

/-- The counter is set to the limit. -/
theorem set (h : Counts limit slots pending clearing)
    (hclearing : clearing' = true → clearing = true) :
    Counts limit slots limit clearing' :=
  ⟨h.nonneg, h.limit, fun _ => h.limit, fun hc => h.clearing (hclearing hc)⟩

/-- The counter is reset. -/
theorem reset (h : Counts limit slots pending true) : Counts limit slots 0 clearing' :=
  ⟨h.nonneg, h.limit, fun _ => (h.clearing rfl).le, fun _ => h.clearing rfl⟩

end Counts

theorem toInt_add_one {c : BitVec 32} (h : c ≠ BitVec.intMax 32) :
    (c + 1).toInt = c.toInt + 1 := by
  have hc : c.toInt ≠ 2147483647 := fun heq => h (BitVec.eq_of_toInt_eq (by simpa using heq))
  have hlt : c.toInt < 2147483648 := BitVec.toInt_lt
  have hle : -2147483648 ≤ c.toInt := BitVec.le_toInt c
  rw [BitVec.toInt_add]
  exact Int.bmod_eq_of_le (by simp; omega) (by simp; omega)

theorem toInt_sub_one {c : BitVec 32} (h : 0 < c.toInt) : (c - 1).toInt = c.toInt - 1 := by
  have hlt : c.toInt < 2147483648 := BitVec.toInt_lt
  rw [BitVec.toInt_sub]
  exact Int.bmod_eq_of_le (by simp; omega) (by simp; omega)

/-! ### The invariant -/

/-- The counter tells the slots of the control commands. -/
def SlotInv (m : Motor) (s : State) : Prop :=
  Counts m.overrunLimit.toInt s.slots s.pending s.clearing

section

variable {m : Motor} {t : ℕ} {s s' : State}

theorem Counts.slotInv {slots pending : ℤ} {clearing : Bool}
    (h : Counts m.overrunLimit.toInt slots pending clearing) (hslots : (s.slots : ℤ) = slots)
    (hpending : s.pending = pending) (hclearing : s.clearing = clearing) : SlotInv m s := by
  rw [SlotInv, hslots, hpending, hclearing]
  exact h

/-- A step that takes no slot and leaves the counter alone. -/
theorem SlotInv.congr (h : SlotInv m s) (hslots : s'.slots ≤ s.slots)
    (hcounter : s'.vars.unacknowledgedCommands = s.vars.unacknowledgedCommands)
    (hclearing : s'.clearing = s.clearing) : SlotInv m s' := by
  rw [SlotInv, State.pending, hcounter, hclearing]
  exact Counts.fewer h (Int.natCast_nonneg _) (Int.ofNat_le.mpr hslots)

/-- A reservation turns into a frame without a reply. -/
theorem slots_sent {fn : Fn} (frame : CanFrame) (hreserved : fn.isSend = true → t ∈ s.reserved) :
    (((s.recordSent t fn frame).withWaitOf t fun w =>
      { w with tag := some s.sent.length }).release t fn).slots = s.slots := by
  cases hfn : fn.isSend with
  | true =>
      have herase := List.length_erase_of_mem (hreserved hfn)
      have hpos := List.length_pos_of_mem (hreserved hfn)
      simp [State.slots, State.release, State.withWaitOf, State.recordSent, hfn, herase]
      omega
  | false => simp [State.slots, State.release, State.withWaitOf, State.recordSent, hfn]

theorem SlotInv.sent (h : SlotInv m s) {fn : Fn} (frame : CanFrame)
    (hreserved : fn.isSend = true → t ∈ s.reserved) :
    SlotInv m (((s.recordSent t fn frame).withWaitOf t fun w =>
      { w with tag := some s.sent.length }).release t fn) :=
  h.congr (slots_sent frame hreserved).le rfl rfl

/-- A reservation is used up. -/
theorem SlotInv.unsent (h : SlotInv m s) (fn : Fn) : SlotInv m (s.release t fn) := by
  refine h.congr (Nat.add_le_add_left ?_ _) rfl rfl
  simp only [State.release]
  split_ifs
  · exact List.length_erase_le
  · exact le_rfl

/-- A command is counted. -/
theorem SlotInv.fetchAdd (h : SlotInv m s) (hclearing : s.clearing = false)
    (hmax : s.vars.unacknowledgedCommands ≠ BitVec.intMax 32) : SlotInv m
      { s.withVars (fun v => { v with unacknowledgedCommands := v.unacknowledgedCommands + 1 }) with
        reserved := if m.overrunLimit.slt (s.vars.unacknowledgedCommands + 1) then s.reserved
          else t :: s.reserved } := by
  have hfalse : Counts m.overrunLimit.toInt s.slots s.pending false := hclearing ▸ h
  by_cases hover : m.overrunLimit.slt (s.vars.unacknowledgedCommands + 1)
  · refine hfalse.overLimit.slotInv ?_ (toInt_add_one hmax) hclearing
    simp only [State.slots, State.withVars, if_pos hover]
  · have hlimit : s.pending + 1 ≤ m.overrunLimit.toInt := by
      rw [State.pending, ← toInt_add_one hmax]
      simpa [BitVec.slt_eq_decide] using hover
    refine (hfalse.take hlimit).slotInv ?_ (toInt_add_one hmax) hclearing
    simp only [State.slots, State.withVars, if_neg hover, List.length_cons]
    push_cast
    ring

/-- A frame takes one off the counter. -/
theorem SlotInv.fetchSub (h : SlotInv m s) {reply : Reply}
    (hkept : SlotsKept s t (.fetchSub reply)) : SlotInv m
      { s.withVars (fun v => { v with unacknowledgedCommands := v.unacknowledgedCommands - 1 }) with
        unanswered :=
          match reply.answers with
          | none => s.unanswered
          | some n => s.unanswered.erase n
        clearing := s.vars.unacknowledgedCommands.sle 0 } := by
  -- Whatever the frame answers, no slot is taken.
  have hfewer : (match reply.answers with
      | none => s.unanswered
      | some n => s.unanswered.erase n).length ≤ s.unanswered.length := by
    split
    · exact le_rfl
    · exact List.length_erase_le
  have hsle : s.vars.unacknowledgedCommands.sle 0 = true ↔ s.pending ≤ 0 :=
    BitVec.sle_iff_toInt_le
  have hpos : 0 < s.pending → s.vars.unacknowledgedCommands.sle 0 = false := fun hpos =>
    Bool.eq_false_iff.mpr fun h => absurd (hsle.mp h) hpos.not_ge
  rcases hkept with ⟨n, hanswers, hn⟩ | hempty | habove
  · have hlength := List.length_pos_of_mem hn
    have hslots : (0 : ℤ) < s.slots := by
      exact_mod_cast hlength.trans_le (Nat.le_add_right _ _)
    obtain ⟨hpending, hcounts⟩ := h.giveBack hslots
    refine hcounts.slotInv ?_ (toInt_sub_one hpending) (hpos hpending)
    rw [Option.mem_def.mp hanswers]
    simp only [State.slots, State.withVars, List.length_erase_of_mem hn]
    push_cast [Nat.cast_sub hlength]
    ring
  · refine ((h.empty hempty _).fewer (Int.natCast_nonneg _) ?_).slotInv rfl rfl
      (hsle.mpr hempty)
    exact Int.ofNat_le.mpr (Nat.add_le_add_right hfewer _)
  · have hpending : 0 < s.pending := h.nonneg.trans_lt habove
    refine ((h.above habove).fewer (Int.natCast_nonneg _) ?_).slotInv rfl
      (toInt_sub_one hpending) (hpos hpending)
    exact Int.ofNat_le.mpr (Nat.add_le_add_right hfewer _)

/-- The counter is set to the limit or reset. -/
theorem SlotInv.store {value : BitVec 32} (h : SlotInv m s) (hpre : m.pre s t (.store value)) :
    SlotInv m { s.withVars (fun v => { v with unacknowledgedCommands := value }) with
      clearing := s.clearing && s.motorMutex != some t } := by
  rcases hpre with rfl | ⟨rfl, -, hclearing⟩
  · exact (h.set fun hc => (Bool.and_eq_true_iff.mp hc).1).slotInv rfl rfl rfl
  · have htrue : Counts m.overrunLimit.toInt s.slots s.pending true := hclearing ▸ h
    exact htrue.reset.slotInv rfl (by simp [State.pending, State.withVars]) rfl

/-- What one step preserves. -/
theorem SlotInv.step {a : Action} (h : SlotInv m s) (hpre : m.pre s t a) (hkept : SlotsKept s t a)
    (heffect : Effect m t s a s') : SlotInv m s' := by
  cases heffect with
  | sent fn frame => exact h.sent frame hpre.1
  | unsent fn frame => exact h.unsent fn
  | fetchAdd => exact h.fetchAdd hkept.1 hkept.2
  | fetchSub reply => exact h.fetchSub hkept
  | store value => exact h.store hpre
  | leave fn ret =>
      have hwait : SlotInv m (s.withWaitOf t fun w => { w with result := some ret }) :=
        h.congr le_rfl rfl rfl
      unfold State.close
      split_ifs <;> exact hwait.congr le_rfl rfl rfl
  | other hsame =>
      refine h.congr ?_ hsame.counter hsame.clearing
      rw [State.slots, hsame.unanswered, hsame.reserved]
      exact le_rfl
  | _ => exact h.congr le_rfl rfl rfl

end

/-! ### The result -/

/-- **At most `overrun_limit` control commands** are without a reply of their own, in every run in
which the frames that come keep the slots. -/
theorem within_limit {m : Motor} (hL : 1 ≤ m.overrunLimit.toNat ∧ m.overrunLimit.toNat < 2 ^ 31)
    {es : List (Event m.system)} {k : Config m.system} (hmeets : Meets SlotsKept m.initial es)
    (hrun : m.initial.run es = some k) : WithinLimit m k.state := by
  have hlimit : m.overrunLimit.toInt = m.overrunLimit.toNat :=
    BitVec.toInt_eq_toNat_of_lt (by omega)
  have hinitial : SlotInv m m.initialState :=
    ⟨le_rfl, hlimit ▸ Int.natCast_nonneg _, fun _ => le_rfl, nofun⟩
  have hslots : SlotInv m k.state := by
    refine run_induction (discipline_kept m) (C := SlotsKept) (P := SlotInv m) ?_ ?_ ?_
      (initial_ok m) hinitial hmeets hrun
    · intro s t a ch r s' _ hpre hkept hP h _
      exact hP.step hpre hkept (perform_effect h)
    · intro s t op s' _ hP h
      obtain ⟨replies, rfl⟩ := call_effect h
      exact hP.congr le_rfl rfl rfl
    · intro s e s' _ hP h
      rcases env_effect h with ⟨arrived, received, replies, rfl⟩ | ⟨i, -, rfl⟩ <;>
        exact hP.congr le_rfl rfl rfl
  have hle : (k.state.unanswered.length : ℤ) ≤ k.state.slots :=
    Int.ofNat_le.mpr (Nat.le_add_right _ _)
  exact ⟨Int.ofNat_le.mp (hlimit ▸ hle.trans hslots.limit), fun hc =>
    hle.trans (hslots.counted hc)⟩

/-- The motor sends at most one reply to a frame it received, and nothing else. -/
def Solicited {m : Motor} : Event m.system → Prop
  | .env (BusEvent.unsolicited _) => False
  | _ => True

/-- A `ping` with its reply, a control command with its reply, and another control command. -/
def answeredSends : Schedule .priv :=
  [.call 0 Op.ping] ++ asking 0 ++ [.env (BusEvent.deliver (some (sampleReply .info)))] ++
    taking 1 7 ⟨sampleReply .info, some 0⟩ ++ go 0 4 ++
    [.call 0 (Op.sendCurrentControl ⟨0, .fin 0⟩)] ++ sending 0 ++
    [.env (BusEvent.deliver (some (sampleReply .feedback)))] ++
    taking 1 5 ⟨sampleReply .feedback, some 1⟩ ++
    [.call 0 (Op.sendCurrentControl ⟨0, .fin 0⟩)] ++ sending 0

theorem within_limit_answered : ∃ k, (Motor.sample .priv).initial.run answeredSends = some k ∧
    k.state.unanswered = [2] ∧ WithinLimit (Motor.sample .priv) k.state := by
  have h : ((Motor.sample .priv).initial.run answeredSends).map (fun k => k.state.unanswered) =
      some [2] := by decide +kernel
  obtain ⟨k, hrun, hunanswered⟩ := Option.map_eq_some_iff.mp h
  exact ⟨k, hrun, hunanswered, within_limit (by decide) (by decide +kernel) hrun⟩

/-- A control command is lost, a `ping` is answered, and another control command follows. -/
def pingBetweenSends : Schedule .priv :=
  [.call 0 (Op.sendCurrentControl ⟨0, .fin 0⟩)] ++ sending 0 ++ [.env BusEvent.lose] ++
    [.call 0 Op.ping] ++ asking 0 ++ [.env (BusEvent.deliver (some (sampleReply .info)))] ++
    taking 1 6 ⟨sampleReply .info, some 1⟩ ++ go 0 4 ++
    [.call 0 (Op.sendCurrentControl ⟨0, .fin 0⟩)] ++ sending 0

/-- **The reply to a `ping`** frees the slot of a control command without a reply: with a limit
of one, two are without. -/
theorem ping_frees_slot : ¬ ∀ (m : Motor) (es : List (Event m.system)) (k : Config m.system),
    1 ≤ m.overrunLimit.toNat ∧ m.overrunLimit.toNat < 2 ^ 31 → (∀ e ∈ es, Solicited e) →
      m.initial.run es = some k → WithinLimit m k.state := by
  intro hall
  have h : ((Motor.sample .priv).initial.run pingBetweenSends).map (fun k => k.state.unanswered) =
      some [0, 2] := by decide +kernel
  obtain ⟨k, hrun, hunanswered⟩ := Option.map_eq_some_iff.mp h
  have hsolicited : ∀ e ∈ pingBetweenSends, Solicited e := by
    simp [pingBetweenSends, sending, asking, taking, go, up, out, Solicited]
  have hle := (hall _ _ k (by decide) hsolicited hrun).1
  rw [hunanswered] at hle
  exact absurd hle (by decide)

end Robstride
