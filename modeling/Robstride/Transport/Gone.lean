import Robstride.Sdk.Receive
import Robstride.Serial.Framing
import Robstride.SocketCan.Link

/-!
# Transport — A device that is gone

`receive` is to tell a device with no complete frame yet (`ERR_TIMEOUT`) from one that is gone
(`ERR_DISCONNECTED`), since the receive loops leave only when the transport is disconnected.

* `reports_iff`: what an implementation needs, so that its runs report a device that is gone as
  long as the answers of the system are of a given kind.
* `gone_reported_iff`: `SocketCANTransport` needs that no end of file meets an `errno` left at
  `EAGAIN`, `EWOULDBLOCK` or `EINTR`; `SerialTransport`, whose descriptor stays open, that the
  device is never gone.
-/

namespace Robstride

open Support

/-! ### What the answers say -/

/-- What the answers of one `receive` say: that the device is gone, that a frame is complete. -/
structure Evidence (σ α : Type) where
  gone : α → Prop
  whole : σ → α → Prop

namespace ITransport

variable {σ ω τ α : Type} (T : ITransport σ ω τ α) (E : Evidence σ α)

/-- No connect of these calls succeeds. -/
def NoConnect (t : σ) (calls : List (Call ω τ α)) : Prop :=
  ∀ before o after, calls = before ++ .connect o :: after →
    (T.connect (T.run t before) o).1 ≠ .success

/-- Disconnected, until a connect succeeds. -/
def Down (t : σ) : Prop :=
  ∀ calls, T.NoConnect t calls → T.isConnected (T.run t calls) = false

/-- The call returns `ERR_DISCONNECTED` and leaves the transport down. -/
def Told (t : σ) (a : α) : Prop :=
  (T.receive t a).1 = .error .errDisconnected ∧ T.Down (T.receive t a).2

/-- This call tells, or the next one. -/
def Notices (t : σ) (a : α) : Prop := T.Told t a ∨ ∀ b, T.Told (T.receive t a).2 b

/-- While the transport is connected, `ERR_TIMEOUT` is returned only when no frame is complete and
the device is there, a device that is gone is noticed, and the receive loops leave then. -/
structure Reports (t₀ : σ) (calls : List (Call ω τ α)) : Prop where
  timeout : ∀ before a after, calls = before ++ .receive a :: after →
    T.isConnected (T.run t₀ before) = true →
      (T.receive (T.run t₀ before) a).1 = .error .errTimeout →
        ¬ E.gone a ∧ ¬ E.whole (T.run t₀ before) a
  noticed : ∀ before a after, calls = before ++ .receive a :: after →
    T.isConnected (T.run t₀ before) = true → E.gone a → T.Notices (T.run t₀ before) a
  loops : ∀ before answers after motors, calls = before ++ answers.map .receive ++ after →
    T.isConnected (T.run t₀ before) = true → (∃ a ∈ answers, E.gone a) →
      (T.motorReceive (T.run t₀ before) answers).isSome ∧
        (T.receiveAll motors (T.run t₀ before) answers).isSome

/-- While the transport is connected, every `receive` of the run has answers of the given kind. -/
def Answered (kind : α → Prop) (t₀ : σ) (calls : List (Call ω τ α)) : Prop :=
  ∀ before a after, calls = before ++ .receive a :: after →
    T.isConnected (T.run t₀ before) = true → kind a

/-! ### What an implementation needs -/

/-- The laws of an implementation whose `receive` is right on answers of a kind, and on no other;
`Inv` holds in every state of a run. -/
structure Laws (Inv : σ → Prop) (kind : α → Prop) : Prop where
  call : ∀ {t}, Inv t → ∀ c, Inv (T.call t c)
  down : ∀ {t}, T.isConnected t = false → ∀ c, T.NoConnect t [c] → T.isConnected (T.call t c) = false
  timely : ∀ {t a}, Inv t → T.isConnected t = true → kind a →
    (T.receive t a).1 = .error .errTimeout → ¬ E.gone a ∧ ¬ E.whole t a
  told : ∀ {t a}, Inv t → T.isConnected t = true → kind a → E.gone a →
    (T.receive t a).1 = .error .errDisconnected ∧ T.isConnected (T.receive t a).2 = false
  frame : ∀ {t a f}, Inv t → T.isConnected t = true → (T.receive t a).1 = .ok f →
    T.isConnected (T.receive t a).2 = true
  other : ∀ {t a}, Inv t → T.isConnected t = true → ¬ kind a →
    E.gone a ∧ ((T.receive t a).1 = .error .errTimeout ∨ ¬ T.Notices t a)

variable {T E} {Inv : σ → Prop} {kind : α → Prop} {t₀ : σ}

theorem Laws.run (L : T.Laws E Inv kind) (h₀ : Inv t₀) (calls : List (Call ω τ α)) :
    Inv (T.run t₀ calls) := by
  induction calls generalizing t₀ with
  | nil => exact h₀
  | cons c calls ih => exact ih (L.call h₀ c)

theorem NoConnect.head {t : σ} {c : Call ω τ α} {calls : List (Call ω τ α)}
    (h : T.NoConnect t (c :: calls)) : T.NoConnect t [c] := by
  rintro before o after hcalls
  refine h before o (after ++ calls) ?_
  rw [← List.singleton_append, hcalls, List.append_assoc, List.cons_append]

theorem NoConnect.tail {t : σ} {c : Call ω τ α} {calls : List (Call ω τ α)}
    (h : T.NoConnect t (c :: calls)) : T.NoConnect (T.call t c) calls := by
  rintro before o after rfl
  exact h (c :: before) o after rfl

/-- A disconnected transport is down. -/
theorem Laws.down_of_disconnected (L : T.Laws E Inv kind) {t : σ} (h : T.isConnected t = false) :
    T.Down t := by
  intro calls hcalls
  induction calls generalizing t with
  | nil => exact h
  | cons c calls ih => exact ih (L.down h c hcalls.head) hcalls.tail

/-! ### The loops -/

theorem motorReceive_of_disconnected {t : σ} (h : T.isConnected t = false) (answers : List α) :
    T.motorReceive t answers = some ([], t) := by
  cases answers with
  | nil => rw [motorReceive, h]; rfl
  | cons a answers => rw [motorReceive, h]; rfl

theorem receiveAllLoop_of_disconnected {t : σ} (h : T.isConnected t = false) (answers : List α) :
    T.receiveAllLoop false t answers = some ([], t) := by
  cases answers with
  | nil => rw [receiveAllLoop, h]; rfl
  | cons a answers => rw [receiveAllLoop, h]; rfl

/-- An iteration of `Motor::receive` ends in the rest of the loop. -/
theorem motorReceive_cons {t : σ} {a : α} {answers : List α}
    (h : (T.motorReceive (T.receive t a).2 answers).isSome) :
    (T.motorReceive t (a :: answers)).isSome := by
  rw [motorReceive]
  split_ifs
  · cases (T.receive t a).1 with
    | ok frame => rwa [Option.isSome_map]
    | error e => exact h
  · rfl

theorem receiveAllLoop_ok {t : σ} {a : α} {answers : List α} {f : CanFrame} {shared : Bool}
    (hok : (T.receive t a).1 = .ok f)
    (h : (T.receiveAllLoop true (T.receive t a).2 answers).isSome) :
    (T.receiveAllLoop shared t (a :: answers)).isSome := by
  rw [receiveAllLoop, hok]
  split_ifs
  · rwa [Option.isSome_map]
  · rfl

theorem receiveAllLoop_error {t : σ} {a : α} {answers : List α} {e : Result} {shared : Bool}
    (herror : (T.receive t a).1 = .error e)
    (h : (T.receiveAllLoop false (T.receive t a).2 answers).isSome) :
    (T.receiveAllLoop shared t (a :: answers)).isSome := by
  rw [receiveAllLoop, herror]
  split_ifs
  · exact h
  · rfl

theorem Answered.head {t : σ} {a : α} {calls : List (Call ω τ α)}
    (h : T.Answered kind t (.receive a :: calls)) (hconnected : T.isConnected t = true) : kind a :=
  h [] a calls rfl hconnected

theorem Answered.tail {t : σ} {c : Call ω τ α} {calls : List (Call ω τ α)}
    (h : T.Answered kind t (c :: calls)) : T.Answered kind (T.call t c) calls := by
  rintro before a after rfl
  exact h (c :: before) a after rfl

/-- The answers of a part of the run. -/
theorem Answered.part {t : σ} {before calls after : List (Call ω τ α)}
    (h : T.Answered kind t (before ++ calls ++ after)) : T.Answered kind (T.run t before) calls := by
  rintro before' a after' rfl
  have hpart := h (before ++ before') a (after' ++ after)
  rw [run_append] at hpart
  exact hpart (by simp only [List.append_assoc, List.cons_append])

/-- **`Motor::receive` leaves** once the device is gone. -/
theorem Laws.motorReceive_leaves (L : T.Laws E Inv kind) {t : σ} (hinv : Inv t) {answers : List α}
    (hkind : T.Answered kind t (answers.map .receive)) (hgone : ∃ a ∈ answers, E.gone a) :
    (T.motorReceive t answers).isSome := by
  induction answers generalizing t with
  | nil =>
      obtain ⟨a, ha, -⟩ := hgone
      cases ha
  | cons a answers ih =>
      cases hconnected : T.isConnected t with
      | false => rw [motorReceive_of_disconnected hconnected]; rfl
      | true =>
          refine motorReceive_cons ?_
          obtain ⟨b, hb, hgone⟩ := hgone
          rcases List.mem_cons.mp hb with rfl | hb
          · have htold := L.told hinv hconnected (hkind.head hconnected) hgone
            rw [motorReceive_of_disconnected htold.2]
            rfl
          · exact ih (L.call hinv (.receive a)) hkind.tail ⟨b, hb, hgone⟩

/-- **`Motor::receive_all` leaves** once the device is gone: in the inner loop the transport is
connected. -/
theorem Laws.receiveAllLoop_leaves (L : T.Laws E Inv kind) {t : σ} (hinv : Inv t) {shared : Bool}
    (hshared : shared = true → T.isConnected t = true) {answers : List α}
    (hkind : T.Answered kind t (answers.map .receive)) (hgone : ∃ a ∈ answers, E.gone a) :
    (T.receiveAllLoop shared t answers).isSome := by
  induction answers generalizing t shared with
  | nil =>
      obtain ⟨a, ha, -⟩ := hgone
      cases ha
  | cons a answers ih =>
      cases hconnected : T.isConnected t with
      | false =>
          have houter : shared = false := by
            by_contra hne
            rw [hshared (Bool.eq_true_of_not_eq_false hne)] at hconnected
            cases hconnected
          rw [houter, receiveAllLoop_of_disconnected hconnected]
          rfl
      | true =>
          have hinv' := L.call hinv (.receive a)
          obtain ⟨b, hb, hgone⟩ := hgone
          rcases List.mem_cons.mp hb with rfl | hb
          · have htold := L.told hinv hconnected (hkind.head hconnected) hgone
            refine receiveAllLoop_error htold.1 ?_
            rw [receiveAllLoop_of_disconnected htold.2]
            rfl
          · cases hresult : (T.receive t a).1 with
            | ok f =>
                have hstill := L.frame hinv hconnected hresult
                exact receiveAllLoop_ok hresult
                  (ih hinv' (fun _ => hstill) hkind.tail ⟨b, hb, hgone⟩)
            | error e =>
                exact receiveAllLoop_error hresult
                  (ih hinv' (fun h => by cases h) hkind.tail ⟨b, hb, hgone⟩)

theorem Laws.receiveAll_leaves (L : T.Laws E Inv kind) {t : σ} (hinv : Inv t) {answers : List α}
    (motors : ℕ) (hkind : T.Answered kind t (answers.map .receive))
    (hgone : ∃ a ∈ answers, E.gone a) : (T.receiveAll motors t answers).isSome := by
  rw [receiveAll]
  split_ifs
  · rfl
  · exact L.receiveAllLoop_leaves hinv (fun h => by cases h) hkind hgone

/-- **A run reports** a device that is gone exactly when its calls are answered as the
implementation needs. -/
theorem Laws.reports_iff (L : T.Laws E Inv kind) (h₀ : Inv t₀) (calls : List (Call ω τ α)) :
    T.Reports E t₀ calls ↔ T.Answered kind t₀ calls := by
  constructor
  · intro h before a after hcalls hconnected
    by_contra hother
    obtain ⟨hgone, hresult⟩ := L.other (L.run h₀ before) hconnected hother
    rcases hresult with htimeout | hunnoticed
    · exact (h.timeout before a after hcalls hconnected htimeout).1 hgone
    · exact hunnoticed (h.noticed before a after hcalls hconnected hgone)
  · intro h
    refine ⟨?_, ?_, ?_⟩
    · intro before a after hcalls hconnected
      exact L.timely (L.run h₀ before) hconnected (h before a after hcalls hconnected)
    · intro before a after hcalls hconnected hgone
      obtain ⟨hresult, hlost⟩ :=
        L.told (L.run h₀ before) hconnected (h before a after hcalls hconnected) hgone
      exact .inl ⟨hresult, L.down_of_disconnected hlost⟩
    · rintro before answers after motors rfl - hgone
      exact ⟨L.motorReceive_leaves (L.run h₀ before) h.part hgone,
        L.receiveAll_leaves (L.run h₀ before) motors h.part hgone⟩

end ITransport

/-! ### The implementations -/

namespace Errno

/-- Neither would block nor interrupted. -/
def permanent (e : Errno) : Bool := e ≠ .eagain ∧ e ≠ .ewouldblock ∧ e ≠ .eintr

end Errno

/-- End of file, or a permanent error. -/
def SocketRead.gone (a : SocketRead) : Prop := a.nbytes = 0 ∨ a.nbytes < 0 ∧ a.err.permanent

/-- What the answers to `read` on the socket show. -/
def socketEvidence : Evidence SocketCANTransport SocketRead where
  gone := SocketRead.gone
  whole _ a := a.nbytes = sizeofCanFrame

/-- No end of file meets an `errno` that says to try again. -/
def SocketRead.Plain (a : SocketRead) : Prop := a.nbytes = 0 → a.err.permanent = true

/-- A hang-up or an error. -/
def Polled.gone : Polled → Bool
  | .idle => false
  | .failed err => err.permanent
  | .ready revents => revents.pollhup || revents.pollerr || revents.pollnval

/-- End of file, or a permanent error. -/
def ReadResult.gone : ReadResult → Bool
  | .bytes _ => false
  | .eof => true
  | .failed err => err.permanent

/-- The read has bytes to push. -/
def ReadResult.isBytes : ReadResult → Bool
  | .bytes _ => true
  | .eof => false
  | .failed _ => false

/-- The round saw that the device is gone. -/
def Round.gone (r : Round) : Bool := r.polled.gone || r.polled.readable && r.read.gone

/-- The rounds the loop makes: it ends at the first that pushes nothing. -/
def roundsMade : List Round → List Round
  | [] => []
  | r :: rounds => r :: if r.polled.readable && r.read.isBytes then roundsMade rounds else []

/-- What the rounds of the serial loop show. -/
def serialEvidence : Evidence SerialTransport (List Round) where
  gone rounds := ∃ r ∈ roundsMade rounds, r.gone = true
  whole t rounds :=
    firstWindow 17 SerialRingBuffer.isAtFrame
      (SerialTransport.drain t.ringBuf (chunksOf rounds)).contents ≠ none

/-! ### SocketCAN -/

section

open SocketCANTransport

theorem permanent_eq_false_iff (e : Errno) :
    e.permanent = false ↔ e = .eagain ∨ e = .ewouldblock ∨ e = .eintr := by
  rw [Errno.permanent, decide_eq_false_iff_not, not_and_or, not_and_or, not_not, not_not, not_not]

/-- `receive` on a connected socket. -/
theorem socket_receive {t : SocketCANTransport} (hopen : t.Open) (hconnected : t.linkOk = true)
    (a : SocketRead) : socketCan.receive t a =
      if a.nbytes = sizeofCanFrame then (.ok a.frame, t)
      else if a.err.permanent = false then (.error .errTimeout, t)
      else (.error .errDisconnected, { t with linkOk := false }) := by
  have hup : ¬ (t.fd < 0 ∨ t.linkOk = false) := by
    rw [hconnected, not_or]
    exact ⟨Int.not_lt.mpr (hopen hconnected), Bool.noConfusion⟩
  simp only [permanent_eq_false_iff]
  exact if_neg hup

theorem socket_call {t : SocketCANTransport} (h : t.Open)
    (c : ITransport.Call Opening (ℤ × Errno) SocketRead) : (socketCan.call t c).Open := by
  cases c with
  | connect sys => exact connect_open h sys
  | transmit frame answer => exact transmit_open h frame answer.1 answer.2
  | receive a => exact receive_open h a.frame a.nbytes a.err
  | disconnect => exact nofun

theorem socket_down {t : SocketCANTransport} (h : t.linkOk = false)
    (c : ITransport.Call Opening (ℤ × Errno) SocketRead) (hc : socketCan.NoConnect t [c]) :
    (socketCan.call t c).linkOk = false := by
  cases c with
  | connect sys =>
      have hfail : (t.connect sys).1 ≠ .success := hc [] sys [] rfl
      change (t.connect sys).2.linkOk = false
      unfold SocketCANTransport.connect at hfail ⊢
      split_ifs at hfail ⊢
      all_goals first | exact h | exact absurd rfl hfail
  | transmit frame answer =>
      have hdown : t.transmit frame answer.1 answer.2 = (.errDisconnected, [], t) :=
        if_pos (Or.inr h)
      change (t.transmit frame answer.1 answer.2).2.2.linkOk = false
      rw [hdown]
      exact h
  | receive a =>
      have hdown : t.receive a.frame a.nbytes a.err = (.error .errDisconnected, t) :=
        if_pos (Or.inr h)
      change (t.receive a.frame a.nbytes a.err).2.linkOk = false
      rw [hdown]
      exact h
  | disconnect => rfl

theorem socket_laws : socketCan.Laws socketEvidence Open SocketRead.Plain where
  call h c := socket_call h c
  down h c hc := socket_down h c hc
  timely := by
    intro t a hopen hconnected hplain htimeout
    rw [socket_receive hopen hconnected] at htimeout
    split_ifs at htimeout with hframe hretry
    · refine ⟨?_, hframe⟩
      rintro (hzero | ⟨-, hpermanent⟩)
      · rw [hplain hzero] at hretry
        cases hretry
      · rw [hpermanent] at hretry
        cases hretry
    · cases htimeout
  told := by
    intro t a hopen hconnected hplain hgone
    have hpermanent : a.err.permanent = true := hgone.elim hplain And.right
    have hframe : a.nbytes ≠ sizeofCanFrame := by
      intro hframe
      rcases hgone with h | ⟨h, -⟩ <;> rw [hframe] at h <;> exact absurd h (by decide)
    rw [socket_receive hopen hconnected, if_neg hframe, if_neg (by rw [hpermanent]; decide)]
    exact ⟨rfl, rfl⟩
  frame := by
    intro t a f hopen hconnected hok
    rw [socket_receive hopen hconnected] at hok ⊢
    split_ifs at hok ⊢
    exact hconnected
  other := by
    intro t a hopen hconnected hplain
    obtain ⟨hzero, hretry⟩ := Classical.not_imp.mp hplain
    refine ⟨.inl hzero, .inl ?_⟩
    rw [socket_receive hopen hconnected, if_neg (by rw [hzero]; decide),
      if_pos (Bool.eq_false_of_not_eq_true hretry)]

end

/-! ### Serial -/

section

open SerialTransport

theorem serial_connected {t : SerialTransport} (h : serial.isConnected t = true) : 0 ≤ t.fd :=
  of_decide_eq_true h

theorem serial_disconnected {t : SerialTransport} (h : serial.isConnected t = false) : t.fd < 0 :=
  Int.not_le.mp (of_decide_eq_false h)

/-- `receive` never disconnects. -/
theorem serial_still {t : SerialTransport} (h : serial.isConnected t = true) (rounds : List Round) :
    serial.isConnected (serial.receive t rounds).2 = true := by
  change decide (0 ≤ (t.receive (chunksOf rounds)).2.fd) = true
  rw [receive_fd]
  exact h

theorem serial_unnoticed {t : SerialTransport} (h : serial.isConnected t = true)
    (rounds : List Round) : ¬ serial.Notices t rounds := by
  rintro (⟨-, hdown⟩ | hnext)
  · have hlost := hdown [] (fun before o after hnil => by cases before <;> cases hnil)
    have hstill := serial_still h rounds
    exact absurd (hstill.symm.trans hlost) (by decide)
  · obtain ⟨-, hdown⟩ := hnext []
    have hlost := hdown [] (fun before o after hnil => by cases before <;> cases hnil)
    have hstill := serial_still (serial_still h rounds) []
    exact absurd (hstill.symm.trans hlost) (by decide)

theorem serial_down {t : SerialTransport} (h : serial.isConnected t = false)
    (c : ITransport.Call (Option ℕ) ℤ (List Round)) (hc : serial.NoConnect t [c]) :
    serial.isConnected (serial.call t c) = false := by
  have hfd := serial_disconnected h
  cases c with
  | connect opened =>
      have hfail : (t.connect opened).1 ≠ .success := hc [] opened [] rfl
      change decide (0 ≤ (t.connect opened).2.fd) = false
      unfold SerialTransport.connect at hfail ⊢
      rw [if_neg (Int.not_le.mpr hfd)] at hfail ⊢
      cases opened with
      | none => exact h
      | some s => exact absurd rfl hfail
  | transmit frame nbytes => exact h
  | receive rounds =>
      change decide (0 ≤ (t.receive (chunksOf rounds)).2.fd) = false
      rw [receive_fd]
      exact h
  | disconnect => rfl

theorem serial_laws :
    serial.Laws serialEvidence (fun _ => True) fun rounds => ¬ serialEvidence.gone rounds where
  call _ _ := trivial
  down h c hc := serial_down h c hc
  timely := by
    intro t rounds _ hconnected hthere htimeout
    refine ⟨hthere, fun hwhole => ?_⟩
    obtain ⟨⟨w, rest⟩, hwindow⟩ := Option.ne_none_iff_exists'.mp hwhole
    obtain ⟨raw, ringBuf, -, -, hreceive⟩ := receive_of_window (serial_connected hconnected) hwindow
    have hframe : (serial.receive t rounds).1 = .ok (parseRaw raw) := by
      change (t.receive (chunksOf rounds)).1 = _
      rw [hreceive]
    rw [hframe] at htimeout
    cases htimeout
  told := fun _ _ hthere hgone => absurd hgone hthere
  frame := fun _ hconnected _ => serial_still hconnected _
  other := fun _ hconnected hgone => ⟨not_not.mp hgone, .inr (serial_unnoticed hconnected _)⟩

end

/-- **Runs that report a device that is gone**: those of `SocketCANTransport` whose ends of file
leave `errno` at a permanent error, and those of `SerialTransport` whose device is never gone. -/
theorem gone_reported_iff (socketCalls : List (ITransport.Call SocketCANTransport.Opening
    (ℤ × Errno) SocketRead)) (serialCalls : List (ITransport.Call (Option ℕ) ℤ (List Round))) :
    (socketCan.Reports socketEvidence .initial socketCalls ↔
      socketCan.Answered SocketRead.Plain .initial socketCalls) ∧
    (serial.Reports serialEvidence .initial serialCalls ↔
      serial.Answered (fun rounds => ¬ serialEvidence.gone rounds) .initial serialCalls) := by
  have hclosed : SocketCANTransport.initial.Open := nofun
  exact ⟨socket_laws.reports_iff hclosed socketCalls, serial_laws.reports_iff trivial serialCalls⟩

/-- A poll that reports a hang-up. -/
def hangup : Round where
  polled := .ready ⟨false, true, false, false⟩
  read := .eof

/-- **A serial port that hangs up** is never reported: `receive` returns `ERR_TIMEOUT`. -/
theorem hangup_unreported :
    ¬ ((∀ calls, socketCan.Reports socketEvidence .initial calls) ∧
      ∀ calls, serial.Reports serialEvidence .initial calls) := by
  rintro ⟨-, hall⟩
  have hreports := hall [.connect (some 3), .receive [hangup]]
  have hgone : serialEvidence.gone [hangup] := ⟨hangup, List.mem_cons_self, rfl⟩
  have hconnected : serial.isConnected (serial.run .initial [.connect (some 3)]) = true := rfl
  exact serial_unnoticed hconnected [hangup]
    (hreports.noticed [.connect (some 3)] [hangup] [] rfl hconnected hgone)

end Robstride
