import Robstride.Sdk.SocketCan

/-!
# SocketCAN — The link flag

A transport is usable when its descriptor is open and its link flag set, and the flag is set only
while the descriptor is open (`run_open`).  `connect` asks for the descriptor alone: after `transmit`
or `receive` has cleared the flag it returns `SUCCESS` and changes nothing.  So a run's successful
connects leave a usable transport exactly when none of its connects meets an open descriptor whose
link is down (`connect_usable_iff`).
-/

namespace Robstride.SocketCANTransport

/-- The transport says it is connected, and hands the next frame to `write`. -/
def Usable (t : SocketCANTransport) : Prop :=
  t.isConnected = true ∧ ∀ frame nbytes err, (t.transmit frame nbytes err).2.1 = [frame]

/-- The descriptor is open and the link is down. -/
def Stale (t : SocketCANTransport) : Prop := 0 ≤ t.fd ∧ t.linkOk = false

/-! ### The descriptor and the flag -/

/-- The link flag is set only while the descriptor is open. -/
def Open (t : SocketCANTransport) : Prop := t.linkOk = true → 0 ≤ t.fd

theorem connect_open {t : SocketCANTransport} (h : t.Open) (sys : Opening) :
    (t.connect sys).2.Open := by
  unfold connect
  split_ifs with hfd hsocket
  all_goals first | exact h | exact fun _ => Int.not_lt.mp hsocket

theorem transmit_open {t : SocketCANTransport} (h : t.Open) (frame : CanFrame) (nbytes : ℤ)
    (err : Errno) : (t.transmit frame nbytes err).2.2.Open := by
  unfold transmit
  split_ifs
  all_goals first | exact h | exact nofun

theorem receive_open {t : SocketCANTransport} (h : t.Open) (frame : CanFrame) (nbytes : ℤ)
    (err : Errno) : (t.receive frame nbytes err).2.Open := by
  unfold receive
  split_ifs
  all_goals first | exact h | exact nofun

theorem call_open {t : SocketCANTransport} (h : t.Open) (c : Call) : (t.call c).Open := by
  cases c with
  | connect sys => exact connect_open h sys
  | transmit frame nbytes err => exact transmit_open h frame nbytes err
  | receive frame nbytes err => exact receive_open h frame nbytes err
  | disconnect => exact nofun

theorem run_open (calls : List Call) : (run calls).Open := by
  induction calls using List.reverseRecOn with
  | nil => exact nofun
  | append_singleton calls c ih =>
      unfold run
      rw [List.foldl_append]
      exact call_open ih c

/-! ### Connecting -/

theorem usable_iff (t : SocketCANTransport) : t.Usable ↔ 0 ≤ t.fd ∧ t.linkOk = true := by
  constructor
  · rintro ⟨hlink, hwrite⟩
    refine ⟨Int.not_lt.mp fun hfd => ?_, hlink⟩
    have hnone := hwrite ⟨0, 0, zeroPayload⟩ 0 .eagain
    unfold transmit at hnone
    rw [if_pos (Or.inl hfd)] at hnone
    cases hnone
  · rintro ⟨hfd, hlink⟩
    refine ⟨hlink, fun frame nbytes err => ?_⟩
    have hopen : ¬ (t.fd < 0 ∨ t.linkOk = false) := by
      rintro (h | h)
      · exact absurd hfd (Int.not_le.mpr h)
      · rw [hlink] at h
        cases h
    unfold transmit
    rw [if_neg hopen]
    split_ifs <;> rfl

/-- A connect with no descriptor open ends usable if it succeeds. -/
theorem connect_usable {t : SocketCANTransport} (hfd : t.fd < 0) {sys : Opening}
    (h : (t.connect sys).1 = .success) : (t.connect sys).2.Usable := by
  rw [usable_iff]
  unfold connect at h ⊢
  rw [if_neg (Int.not_le.mpr hfd)] at h ⊢
  split_ifs at h ⊢ with hsocket
  exact ⟨Int.not_lt.mp hsocket, rfl⟩

/-- A connect keeps its word, to leave a usable transport if it succeeds, unless it meets a stale
one. -/
theorem usable_of_success_iff (t : SocketCANTransport) (sys : Opening) :
    ((t.connect sys).1 = .success → (t.connect sys).2.Usable) ↔ ¬ t.Stale := by
  constructor
  · rintro h ⟨hfd, hlink⟩
    have hconnect : t.connect sys = (.success, t) := if_pos hfd
    rw [hconnect] at h
    have husable := (usable_iff t).mp (h rfl)
    rw [hlink] at husable
    cases husable.2
  · intro hstale h
    by_cases hfd : 0 ≤ t.fd
    · have hlink : t.linkOk = true := by
        by_contra hlink
        exact hstale ⟨hfd, Bool.eq_false_iff.mpr hlink⟩
      have hconnect : t.connect sys = (.success, t) := if_pos hfd
      rw [hconnect, usable_iff]
      exact ⟨hfd, hlink⟩
    · exact connect_usable (Int.not_le.mp hfd) h

/-- **Every run** keeps the descriptor open while it is connected, and its successful connects leave
a usable transport exactly when none of its connects meets a stale one. -/
theorem connect_usable_iff (calls : List Call) :
    ((run calls).isConnected = true → 0 ≤ (run calls).fd) ∧
      ((∀ before sys after, calls = before ++ .connect sys :: after →
          ((run before).connect sys).1 = .success → ((run before).connect sys).2.Usable) ↔
        ∀ before sys after, calls = before ++ .connect sys :: after → ¬ (run before).Stale) := by
  refine ⟨run_open calls, ?_⟩
  constructor
  · intro h before sys after hcalls
    exact (usable_of_success_iff _ sys).mp (h before sys after hcalls)
  · intro h before sys after hcalls
    exact (usable_of_success_iff _ sys).mpr (h before sys after hcalls)

/-- The interface goes down under a `transmit`; a second `connect` returns `SUCCESS` all the same. -/
theorem reconnect_stale : ∃ before sys, ((run before).connect sys).1 = .success ∧
    ¬ ((run before).connect sys).2.Usable := by
  refine ⟨[.connect ⟨3, 0, 0, true, 0⟩, .transmit ⟨0, 8, zeroPayload⟩ (-1) .enetdown],
    ⟨3, 0, 0, true, 0⟩, by decide, ?_⟩
  rintro ⟨hconnected, -⟩
  exact absurd hconnected (by decide)

end Robstride.SocketCANTransport
