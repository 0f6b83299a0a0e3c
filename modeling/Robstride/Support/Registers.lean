import Mathlib.Algebra.Ring.Nat
import Mathlib.Data.List.Induction

/-!
# Support — Registers

A register is a part of a system's state that an event overwrites, if it touches it at all: after a
run of events it holds the last value written (`Register.get_run`).  A tally counts some of the
events, in a machine word (`Tally.get_run`); where these are some of a kind, it counts that kind if
it misses none (`Tally.toNat_get_run_iff`).  The order in which events of different classes come
does not matter to a register or a tally that only one class touches (`Register.get_run_congr`,
`Tally.get_run_congr`).
-/

namespace Support

variable {σ ε β V : Type*} {w : ℕ}

/-! ### Registers -/

/-- A part of the state that an event overwrites, if at all. -/
structure Register (step : σ → ε → σ) (V : Type*) where
  get : σ → V
  write : ε → Option V
  get_step : ∀ s e, get (step s e) = (write e).getD (get s)

namespace Register

variable {step : σ → ε → σ} (r : Register step V)

/-- The last write wins. -/
theorem get_run (s : σ) (events : List ε) :
    r.get (events.foldl step s) = (events.filterMap r.write).getLast?.getD (r.get s) := by
  induction events using List.reverseRecOn with
  | nil => rfl
  | append_singleton events e ih =>
      rw [List.foldl_append, List.foldl_cons, List.foldl_nil, r.get_step, ih, List.filterMap_append]
      cases h : r.write e with
      | none => simp [h]
      | some v => simp [h]

end Register

/-! ### Tallies -/

/-- A part of the state that counts events. -/
structure Tally (step : σ → ε → σ) (w : ℕ) where
  get : σ → BitVec w
  counts : ε → Bool
  get_step : ∀ s e, get (step s e) = if counts e then get s + 1 else get s

namespace Tally

variable {step : σ → ε → σ} (c : Tally step w)

theorem get_run (s : σ) (events : List ε) :
    c.get (events.foldl step s) = c.get s + BitVec.ofNat w (events.countP c.counts) := by
  induction events generalizing s with
  | nil => simp
  | cons e events ih =>
      rw [List.foldl_cons, ih, c.get_step]
      by_cases he : c.counts e = true
      · rw [if_pos he, List.countP_cons_of_pos he, BitVec.add_assoc, Nat.add_comm, BitVec.ofNat_add]
        rfl
      · rw [if_neg he, List.countP_cons_of_neg he]

/-- A count is that of a part and of the rest. -/
theorem countP_part {part whole : ε → Bool} (h : ∀ e, part e = true → whole e = true)
    (events : List ε) : events.countP whole =
      events.countP part + events.countP fun e => whole e && !part e := by
  rw [List.countP_eq_countP_filter_add events whole part, List.countP_filter, List.countP_filter]
  congr 1
  refine List.countP_congr fun e _ => ?_
  simpa using h e

/-- A tally of some events of a kind is the number of all of them exactly where it misses none, and
the number fits. -/
theorem toNat_get_run_iff {s : σ} (hs : c.get s = 0#w) {kind : ε → Bool}
    (hkind : ∀ e, c.counts e = true → kind e = true) (events : List ε) :
    (c.get (events.foldl step s)).toNat = events.countP kind ↔
      (∀ e ∈ events, kind e = true → c.counts e = true) ∧ events.countP kind < 2 ^ w := by
  have hmissed : (events.countP fun e => kind e && !c.counts e) = 0 ↔
      ∀ e ∈ events, kind e = true → c.counts e = true := by
    rw [List.countP_eq_zero]
    simp
  rw [← hmissed, c.get_run, hs, BitVec.zero_add, BitVec.toNat_ofNat, countP_part hkind events]
  have hle := Nat.mod_le (events.countP c.counts) (2 ^ w)
  constructor
  · intro h
    have hlt := Nat.mod_lt (events.countP c.counts) (Nat.two_pow_pos w)
    exact ⟨by omega, by omega⟩
  · rintro ⟨hzero, hlt⟩
    rw [hzero, Nat.add_zero] at hlt ⊢
    exact Nat.mod_eq_of_lt hlt

end Tally

/-! ### Reordering -/

section Classes

variable [DecidableEq β] {cls : ε → β} {events events' : List ε}

/-- Two runs have the same events of each class, in the same order. -/
def SameByClass (cls : ε → β) (events events' : List ε) : Prop :=
  ∀ b, events.filter (fun e => cls e = b) = events'.filter fun e => cls e = b

theorem SameByClass.symm (h : SameByClass cls events events') :
    SameByClass cls events' events := fun b => (h b).symm

theorem SameByClass.mem (h : SameByClass cls events events') {e : ε} (he : e ∈ events) :
    e ∈ events' := by
  have hmem : e ∈ events.filter fun x => cls x = cls e :=
    List.mem_filter.mpr ⟨he, decide_eq_true rfl⟩
  rw [h (cls e)] at hmem
  exact (List.mem_filter.mp hmem).1

theorem SameByClass.mem_iff (h : SameByClass cls events events') {e : ε} :
    e ∈ events ↔ e ∈ events' := ⟨h.mem, h.symm.mem⟩

/-- What depends on the events of one class alone does not see the others. -/
theorem filterMap_filter_class {f : ε → Option V} {b : β} (hf : ∀ e, cls e ≠ b → f e = none)
    (events : List ε) : (events.filter fun e => cls e = b).filterMap f = events.filterMap f := by
  induction events with
  | nil => rfl
  | cons e events ih =>
      by_cases he : cls e = b
      · rw [List.filter_cons_of_pos (by simpa using he), List.filterMap_cons, List.filterMap_cons, ih]
      · rw [List.filter_cons_of_neg (by simpa using he),
          List.filterMap_cons_none (hf e he), ih]

theorem SameByClass.filterMap_eq (h : SameByClass cls events events') {f : ε → Option V} {b : β}
    (hf : ∀ e, cls e ≠ b → f e = none) : events.filterMap f = events'.filterMap f := by
  rw [← filterMap_filter_class hf events, h b, filterMap_filter_class hf]

/-- Two neighbours of different classes may change places. -/
theorem sameByClass_swap {e e' : ε} (h : cls e ≠ cls e') (before after : List ε) :
    SameByClass cls (before ++ e :: e' :: after) (before ++ e' :: e :: after) := by
  intro b
  rw [List.filter_append, List.filter_append]
  congr 1
  by_cases hb : cls e = b
  · have hb' : cls e' ≠ b := fun h' => h (hb.trans h'.symm)
    simp [hb, hb']
  · simp [List.filter_cons, hb]

/-- A register that one class of events writes ends the same in both runs. -/
theorem Register.get_run_congr {step : σ → ε → σ} (r : Register step V)
    (h : SameByClass cls events events') (b : β) (hr : ∀ e, cls e ≠ b → r.write e = none) (s : σ) :
    r.get (events.foldl step s) = r.get (events'.foldl step s) := by
  rw [r.get_run, r.get_run, h.filterMap_eq hr]

theorem Tally.get_run_congr {step : σ → ε → σ} (c : Tally step w)
    (h : SameByClass cls events events') (b : β) (hc : ∀ e, c.counts e = decide (cls e = b)) (s : σ) :
    c.get (events.foldl step s) = c.get (events'.foldl step s) := by
  have hcounts : c.counts = fun e => decide (cls e = b) := funext hc
  rw [c.get_run, c.get_run, hcounts, List.countP_eq_length_filter, h b,
    ← List.countP_eq_length_filter]

end Classes

end Support
