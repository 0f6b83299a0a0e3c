import Robstride.Sdk.Syscalls
import Robstride.Support.Phases

/-!
# Transport — Descriptors

Which open files the transports touch, in any interleaving of their calls with each other and with
other code that opens and closes files of its own.  Calls of `connect` and `disconnect` do not
overlap each other; `transmit` and `receive` may overlap everything.

`connect` leaks no descriptor on any of its ways out, `disconnect` closes the transport's own and
nothing else, and a descriptor that `transmit` or `receive` acts on is the transport's own, unless a
`disconnect` was under way since the call began (`descriptors_owned`).
-/

namespace Robstride

open Support Support.Pool

namespace Posix

/-! ### Phases -/

/-- What a thread is in the middle of. -/
inductive Phase where
  | idle
  /-- `transmit` or `receive`, before it reads `fd_`. -/
  | fresh
  /-- It read a negative `fd_`. -/
  | refused
  /-- It read these, the first not negative. -/
  | uses (fds : List ℤ)
  /-- `connect`, before it reads `fd_`. -/
  | asking
  /-- `fd_` is negative, and nothing is open. -/
  | vacant
  /-- The descriptor is open, and not yet in `fd_`. -/
  | opened (fd : ℤ)
  /-- Nothing is left to do about descriptors. -/
  | settled
  /-- `disconnect`, before it reads `fd_`. -/
  | leaving
  /-- It read a descriptor to close. -/
  | closing (fd : ℤ)
  /-- The descriptor is closed, and still in `fd_`. -/
  | closed

namespace Phase

/-- The call may return. -/
def MayLeave : Phase → Role → Prop
  | .fresh, .user | .refused, .user | .uses _, .user => True
  | .vacant, .opener | .settled, .opener => True
  | .settled, .closer => True
  | _, _ => False

/-- The thread may read `fd_`. -/
def MayLoad : Phase → Prop
  | .fresh | .uses _ | .asking | .leaving | .closing _ => True
  | _ => False

/-- What the thread may do next. -/
def Ok (φ : Phase) : Action → Prop
  | .enter _ => φ = .idle
  | .leave role => φ.MayLeave role
  | .loadFd => φ.MayLoad
  | .storeFd fd => φ = .opened fd ∨ φ = .closed ∧ fd = -1
  | .create => φ = .vacant
  | .setup fd _ | .getFlags fd => φ = .opened fd
  | .close fd => φ = .opened fd ∨ φ = .closing fd
  | .write fd _ | .readFrame fd | .poll fd | .readBytes fd => ∃ fds, φ = .uses fds ∧ fd ∈ fds
  | _ => True

/-- Where the value of `fd_` takes the thread. -/
def loaded (fd : ℤ) : Phase → Phase
  | .fresh => if fd < 0 then .refused else .uses [fd]
  | .uses fds => .uses (fd :: fds)
  | .asking => if fd < 0 then .vacant else .settled
  | .leaving => if fd < 0 then .settled else .closing fd
  | .closing _ => .closing fd
  | φ => φ

/-- Where a `close` takes the thread: in `disconnect` `fd_` still names the descriptor. -/
def afterClose : Phase → Phase
  | .closing _ => .closed
  | _ => .vacant

/-- Where an action with its answer takes the thread. -/
def next (φ : Phase) : (a : Action) → a.Res → Phase
  | .enter .user, _ => .fresh
  | .enter .opener, _ => .asking
  | .enter .closer, _ => .leaving
  | .leave _, _ => .idle
  | .loadFd, fd => φ.loaded fd
  | .storeFd _, _ => .settled
  | .create, fd => if fd < 0 then .vacant else .opened fd
  | .close _, _ => φ.afterClose
  | _, _ => φ

end Phase

/-- The phases of the calls. -/
def phases (kind : Kind) : Phases (system kind) where
  Phase := Phase
  idle := .idle
  ok := Phase.Ok
  next := Phase.next

section Programs

variable {kind : Kind}

/-- The call, from its first action to its last. -/
abbrev Keeps (kind : Kind) {α : Type} (p : Cmd α) (φ : Phase) (role : Role) : Prop :=
  (phases kind).Obeys (fun _ φ' => Phase.MayLeave φ' role) p φ

/-- Either branch, knowing the test. -/
theorem keeps_ite {α : Type} {b : Prop} [Decidable b] {p q : Cmd α} {φ : Phase} {role : Role}
    (hp : b → Keeps kind p φ role) (hq : ¬ b → Keeps kind q φ role) :
    Keeps kind (if b then p else q) φ role := by
  by_cases hb : b
  · rw [if_pos hb]
    exact hp hb
  · rw [if_neg hb]
    exact hq hb

/-! Opening -/

/-- A failure of `connect` closes what it opened. -/
theorem keeps_giveUp (fd : ℤ) (r : Result) : Keeps kind (giveUp fd r) (.opened fd) .opener :=
  .act (Or.inl rfl) fun _ => trivial

/-- `connect` does nothing where `fd_` is not negative. -/
theorem keeps_asked {p : Cmd Result} (h : Keeps kind p .vacant .opener) :
    Keeps kind (do if 0 ≤ (← .perform Action.loadFd) then return .success else p)
      .asking .opener := by
  refine .act trivial fun (fd : ℤ) => ?_
  by_cases hfd : fd < 0
  · have hphase : Phase.next .asking .loadFd fd = .vacant := if_pos hfd
    change Keeps kind _ (Phase.next .asking .loadFd fd) _
    rw [hphase, if_neg (not_le.mpr hfd)]
    exact h
  · have hphase : Phase.next .asking .loadFd fd = .settled := if_neg hfd
    change Keeps kind _ (Phase.next .asking .loadFd fd) _
    rw [hphase, if_pos (not_lt.mp hfd)]
    exact trivial

/-- `connect` goes on only with an open descriptor. -/
theorem keeps_created {p : ℤ → Cmd Result} (h : ∀ s, Keeps kind (p s) (.opened s) .opener) :
    Keeps kind (do
      let s ← .perform Action.create
      if s < 0 then return .errTransport else p s) .vacant .opener := by
  refine .act rfl fun (fd : ℤ) => ?_
  by_cases hfd : fd < 0
  · have hphase : Phase.next .vacant .create fd = .vacant := if_pos hfd
    change Keeps kind _ (Phase.next .vacant .create fd) _
    rw [hphase, if_pos hfd]
    exact trivial
  · have hphase : Phase.next .vacant .create fd = .opened fd := if_neg hfd
    change Keeps kind _ (Phase.next .vacant .create fd) _
    rw [hphase, if_neg hfd]
    exact h fd

/-- `SocketCANTransport::connect` leaks nothing on any way out. -/
theorem SocketCANTransport.connect_keeps :
    Keeps kind SocketCANTransport.connect .asking .opener := by
  refine keeps_asked (keeps_created fun s => ?_)
  refine .act rfl fun _ => keeps_ite (fun _ => keeps_giveUp s _) fun _ => ?_
  refine .act rfl fun _ => keeps_ite (fun _ => keeps_giveUp s _) fun _ => ?_
  refine keeps_ite (fun _ => keeps_giveUp s _) fun _ => ?_
  refine .act rfl fun _ => keeps_ite (fun _ => keeps_giveUp s _) fun _ => ?_
  refine .act rfl fun _ => .act rfl fun _ => .act rfl fun _ => .act rfl fun _ => ?_
  exact .act (Or.inl rfl) fun _ => .act trivial fun _ => trivial

/-- Nor does `SerialTransport::connect`. -/
theorem SerialTransport.connect_keeps : Keeps kind SerialTransport.connect .asking .opener := by
  refine keeps_asked (keeps_created fun s => ?_)
  refine .act rfl fun _ => keeps_ite (fun _ => keeps_giveUp s _) fun _ => ?_
  refine .act rfl fun _ => keeps_ite (fun _ => keeps_giveUp s _) fun _ => ?_
  exact .act trivial fun _ => .act (Or.inl rfl) fun _ => trivial

/-! Closing -/

/-- The two read `fd_` once for the test and once for the call of `close`. -/
theorem keeps_closed {p q : Cmd Unit} (hp : Keeps kind p .settled .closer)
    (hq : Keeps kind q .settled .closer) :
    Keeps kind (do
      if 0 ≤ (← .perform Action.loadFd) then
        let fd ← .perform Action.loadFd
        let _ ← .perform (Action.close fd)
        let _ ← .perform (Action.storeFd (-1))
        p
      else q) .leaving .closer := by
  refine .act trivial fun (fd : ℤ) => ?_
  by_cases hfd : fd < 0
  · have hphase : Phase.next .leaving .loadFd fd = .settled := if_pos hfd
    change Keeps kind _ (Phase.next .leaving .loadFd fd) _
    rw [hphase, if_neg (not_le.mpr hfd)]
    exact hq
  · have hphase : Phase.next .leaving .loadFd fd = .closing fd := if_neg hfd
    change Keeps kind _ (Phase.next .leaving .loadFd fd) _
    rw [hphase, if_pos (not_lt.mp hfd)]
    exact .act trivial fun _ => .act (Or.inr rfl) fun _ => .act (Or.inr ⟨rfl, rfl⟩) fun _ => hp

/-- `SocketCANTransport::disconnect` closes what it read. -/
theorem SocketCANTransport.disconnect_keeps :
    Keeps kind SocketCANTransport.disconnect .leaving .closer :=
  .act trivial fun _ => keeps_closed (p := .ret ()) (q := .ret ()) trivial trivial

/-- So does `SerialTransport::disconnect`. -/
theorem SerialTransport.disconnect_keeps :
    Keeps kind SerialTransport.disconnect .leaving .closer :=
  keeps_closed (.perform trivial fun _ => trivial) (.perform trivial fun _ => trivial)

/-! Using -/

/-- What a thread may do that has read `fd_` and found it not negative. -/
abbrev Uses (kind : Kind) {α : Type} (p : Cmd α) : Prop :=
  ∀ fds, Keeps kind p (.uses fds) .user

/-- The test of `fd_` at the start of `transmit` and `receive`. -/
theorem keeps_tested {α : Type} {r : α} {p : Cmd α} (h : Uses kind p) :
    Keeps kind (do if (← .perform Action.loadFd) < 0 then return r else p) .fresh .user := by
  refine .act trivial fun (fd : ℤ) => ?_
  by_cases hfd : fd < 0
  · have hphase : Phase.next .fresh .loadFd fd = .refused := if_pos hfd
    change Keeps kind _ (Phase.next .fresh .loadFd fd) _
    rw [hphase, if_pos hfd]
    exact trivial
  · have hphase : Phase.next .fresh .loadFd fd = .uses [fd] := if_neg hfd
    change Keeps kind _ (Phase.next .fresh .loadFd fd) _
    rw [hphase, if_neg hfd]
    exact h [fd]

/-- Past the tests the thread has read a descriptor. -/
theorem keeps_isDown {α : Type} {r : α} {p : Cmd α} (h : Uses kind p) :
    Keeps kind (do if ← SocketCANTransport.isDown then return r else p) .fresh .user := by
  have hdown : (phases kind).Obeys (fun down φ => Phase.MayLeave φ .user ∧
      (down = false → ∃ fds, φ = .uses fds)) SocketCANTransport.isDown .fresh := by
    refine .act trivial fun (fd : ℤ) => ?_
    by_cases hfd : fd < 0
    · have hphase : Phase.next .fresh .loadFd fd = .refused := if_pos hfd
      rw [if_pos hfd]
      change Phase.MayLeave (Phase.next .fresh .loadFd fd) .user ∧ _
      rw [hphase]
      exact ⟨trivial, fun h => by cases h⟩
    · have hphase : Phase.next .fresh .loadFd fd = .uses [fd] := if_neg hfd
      rw [if_neg hfd]
      refine .act trivial fun link => ?_
      change Phase.MayLeave (Phase.next .fresh .loadFd fd) .user ∧
        (_ → ∃ fds, Phase.next .fresh .loadFd fd = .uses fds)
      rw [hphase]
      exact ⟨trivial, fun _ => ⟨_, rfl⟩⟩
  refine hdown.bind fun down φ hφ => keeps_ite (fun _ => hφ.1) fun hup => ?_
  obtain ⟨fds, rfl⟩ := hφ.2 (Bool.eq_false_of_not_eq_true hup)
  exact h fds

/-- `SocketCANTransport::transmit` acts on a descriptor it read. -/
theorem SocketCANTransport.transmit_keeps (frame : CanFrame) :
    Keeps kind (SocketCANTransport.transmit frame) .fresh .user := by
  refine keeps_isDown fun fds => .act trivial fun _ => ?_
  have hwrite : Uses kind (SocketCANTransport.writeFrame frame) := by
    intro fds
    refine .act trivial fun fd => .act ⟨_, rfl, List.mem_cons_self⟩ fun answer => ?_
    refine keeps_ite (fun _ => trivial) fun _ => keeps_ite (fun _ => ?_) fun _ => trivial
    exact .act trivial fun _ => trivial
  exact (hwrite fds).bind fun r φ hφ => .act trivial fun _ => hφ

/-- `SocketCANTransport::receive` acts on a descriptor it read. -/
theorem SocketCANTransport.receive_keeps :
    Keeps kind SocketCANTransport.receive .fresh .user := by
  refine keeps_isDown fun fds => .act trivial fun fd => ?_
  refine .act ⟨_, rfl, List.mem_cons_self⟩ fun answer => ?_
  refine keeps_ite (fun _ => trivial) fun _ => keeps_ite (fun _ => trivial) fun _ => ?_
  exact .act trivial fun _ => trivial

/-- `SerialTransport::transmit` acts on a descriptor it read. -/
theorem SerialTransport.transmit_keeps (frame : CanFrame) :
    Keeps kind (SerialTransport.transmit frame) .fresh .user := by
  refine keeps_tested fun fds => keeps_ite (fun _ => trivial) fun _ => keeps_ite (fun _ => ?_)
    fun _ => ?_
  · exact .act trivial fun r => r.elim
  · refine .act trivial fun _ => .act trivial fun fd => ?_
    exact .act ⟨_, rfl, List.mem_cons_self⟩ fun answer => .act trivial fun _ => trivial

/-- Each round of the loop reads `fd_` once more; `poll` keeps its first value. -/
theorem SerialTransport.drain_keeps {pollfd : ℤ} (rounds : ℕ) {fds : List ℤ} (h : pollfd ∈ fds) :
    (phases kind).Obeys (fun _ φ => ∃ fds, φ = Phase.uses fds)
      (SerialTransport.drain pollfd rounds) (.uses fds) := by
  induction rounds generalizing fds with
  | zero =>
      refine .act ⟨_, rfl, h⟩ fun polled => ?_
      split_ifs
      · exact .act trivial fun r => r.elim
      · exact ⟨fds, rfl⟩
  | succ rounds ih =>
      refine .act ⟨_, rfl, h⟩ fun polled => ?_
      split_ifs
      · refine .act trivial fun fd => .act ⟨_, rfl, List.mem_cons_self⟩ fun answer => ?_
        cases answer with
        | bytes chunk => exact .act trivial fun _ => ih (List.mem_cons_of_mem fd h)
        | eof => exact ⟨fd :: fds, rfl⟩
        | failed err => exact ⟨fd :: fds, rfl⟩
      · exact ⟨fds, rfl⟩

/-- `SerialTransport::receive` acts on one it read, `poll` perhaps on an earlier one than `read`. -/
theorem SerialTransport.receive_keeps (rounds : ℕ) :
    Keeps kind (SerialTransport.receive rounds) .fresh .user := by
  refine keeps_tested fun fds => .act trivial fun pollfd => ?_
  refine (drain_keeps rounds List.mem_cons_self).bind fun _ φ hφ => ?_
  obtain ⟨fds, rfl⟩ := hφ
  refine .act trivial fun raw => ?_
  cases raw with
  | none => trivial
  | some raw => trivial

/-- `SerialTransport::is_connected` acts on none. -/
theorem SerialTransport.isConnected_keeps :
    Keeps kind SerialTransport.isConnected .fresh .user := by
  refine .act trivial fun (fd : ℤ) => ?_
  change Phase.MayLeave (if fd < 0 then .refused else .uses [fd]) .user
  split_ifs <;> exact trivial

/-- **Every call** keeps to the phases. -/
theorem body_keeps (kind : Kind) : (phases kind).Kept := by
  have hcalled : ∀ {role : Role} {p : Cmd Output} {φ : Phase}, φ = Phase.next .idle (.enter role) () →
      Keeps kind p φ role → (phases kind).Obeys (fun _ φ => φ = Phase.idle) (do
        let _ ← .perform (Action.enter role)
        let _ ← p
        .perform (Action.leave role)) .idle := by
    rintro role p _ rfl hp
    exact .act rfl fun _ => hp.bind fun _ _ hφ => .perform hφ fun _ => rfl
  have hmap : ∀ {α : Type} {f : α → Output} {p : Cmd α} {φ : Phase} {role : Role},
      Keeps kind p φ role → Keeps kind (f <$> p) φ role :=
    fun hp => hp.bind fun _ _ hφ => hφ
  intro op
  cases op with
  | connect =>
      cases kind with
      | socketCan => exact hcalled rfl (hmap SocketCANTransport.connect_keeps)
      | serial => exact hcalled rfl (hmap SerialTransport.connect_keeps)
  | transmit frame =>
      cases kind with
      | socketCan => exact hcalled rfl (hmap (SocketCANTransport.transmit_keeps frame))
      | serial => exact hcalled rfl (hmap (SerialTransport.transmit_keeps frame))
  | receive rounds =>
      cases kind with
      | socketCan => exact hcalled rfl (hmap SocketCANTransport.receive_keeps)
      | serial => exact hcalled rfl (hmap (SerialTransport.receive_keeps rounds))
  | disconnect =>
      cases kind with
      | socketCan => exact hcalled rfl (hmap SocketCANTransport.disconnect_keeps)
      | serial => exact hcalled rfl (hmap SerialTransport.disconnect_keeps)
  | isConnected =>
      cases kind with
      | socketCan => exact hcalled rfl (hmap (.perform trivial fun _ => trivial))
      | serial => exact hcalled rfl (hmap SerialTransport.isConnected_keeps)

end Programs

/-! ### What the phases say of the table -/

/-- The open descriptors of the transport: `fd` alone, or none where it is negative. -/
def State.Exactly (s : State) (fd : ℤ) : Prop :=
  ∀ n : ℕ, s.files n = some .transport ↔ (n : ℤ) = fd

/-- The one descriptor is the transport's own. -/
theorem State.Exactly.owns {s : State} {fd : ℤ} (h : s.Exactly fd) (hfd : 0 ≤ fd) :
    s.Owns fd :=
  ⟨hfd, (h fd.toNat).mpr (Int.toNat_of_nonneg hfd)⟩

/-- What a phase of thread `t` says of the state. -/
def Phase.At (s : State) (t : ℕ) : Phase → Prop
  | .idle => True
  | .fresh | .refused => s.disconnecting = true → s.disturbed t = true
  | .uses fds => (s.disconnecting = true → s.disturbed t = true) ∧
      (s.disturbed t = true ∨ s.Owns s.fd ∧ ∀ n ∈ fds, n = s.fd)
  | .asking | .settled => s.manager = some t ∧ s.Exactly s.fd
  | .vacant => s.manager = some t ∧ s.fd < 0 ∧ s.Exactly s.fd
  | .opened fd => s.manager = some t ∧ s.fd < 0 ∧ 0 ≤ fd ∧ s.Exactly fd
  | .leaving => s.manager = some t ∧ s.disconnecting = true ∧ s.Exactly s.fd
  | .closing fd => s.manager = some t ∧ s.disconnecting = true ∧ s.fd = fd ∧ 0 ≤ fd ∧
      s.Exactly fd
  | .closed => s.manager = some t ∧ s.disconnecting = true ∧ s.Exactly (-1)

section At

variable {s s' : State} {t : ℕ} {φ : Phase}

/-- The other actions change nothing that a phase speaks of. -/
theorem Phase.At.congr (h : φ.At s t) (hfd : s'.fd = s.fd) (hmanager : s'.manager = s.manager)
    (hdisconnecting : s'.disconnecting = s.disconnecting)
    (hdisturbed : s'.disturbed t = s.disturbed t)
    (hfiles : ∀ n, s'.files n = some .transport ↔ s.files n = some .transport) : φ.At s' t := by
  have howns : ∀ n, s'.Owns n ↔ s.Owns n := fun n => and_congr Iff.rfl (hfiles n.toNat)
  have hexactly : ∀ n, s'.Exactly n ↔ s.Exactly n :=
    fun n => forall_congr' fun k => iff_congr (hfiles k) Iff.rfl
  cases φ with
  | idle => trivial
  | _ => simpa only [Phase.At, hfd, hmanager, hdisconnecting, hdisturbed, howns, hexactly] using h

/-- The thread in `connect` or `disconnect` acts: what the others hold of `fd_` stays, unless they
are disturbed. -/
theorem Phase.At.other (h : φ.At s t) (hmanager : s.manager ≠ some t)
    (hdisconnecting : s'.disconnecting = true → s.disconnecting = true ∨ s'.disturbed t = true)
    (hdisturbed : s.disturbed t = true → s'.disturbed t = true)
    (hkeep : s.disconnecting = false → s.Owns s.fd → s'.fd = s.fd ∧ s'.Owns s.fd) :
    φ.At s' t := by
  have hlater : (s.disconnecting = true → s.disturbed t = true) →
      s'.disconnecting = true → s'.disturbed t = true :=
    fun hnow hdis => (hdisconnecting hdis).elim (fun h => hdisturbed (hnow h)) id
  cases φ with
  | idle => trivial
  | fresh | refused => exact hlater h
  | uses fds =>
      refine ⟨hlater h.1, ?_⟩
      cases hd : s.disturbed t with
      | true => exact Or.inl (hdisturbed hd)
      | false =>
          have hnot : s.disconnecting = false := by
            by_contra hdis
            have htrue := h.1 (Bool.eq_true_of_not_eq_false hdis)
            rw [hd] at htrue
            cases htrue
          obtain ⟨howns, hfds⟩ := h.2.resolve_left (by rw [hd]; exact Bool.false_ne_true)
          obtain ⟨hfd, howns'⟩ := hkeep hnot howns
          rw [← hfd] at howns'
          exact Or.inr ⟨howns', fun n hn => (hfds n hn).trans hfd.symm⟩
  | _ => exact absurd h.1 hmanager

/-- A thread reads `fd_`. -/
theorem Phase.At.loaded (h : φ.At s t) (hload : φ.MayLoad)
    (hsound : s.disconnecting = false → 0 ≤ s.fd → s.Owns s.fd) : (φ.loaded s.fd).At s t := by
  cases φ with
  | fresh =>
      unfold Phase.loaded
      split_ifs with hfd
      · exact h
      · refine ⟨h, ?_⟩
        cases hdis : s.disconnecting with
        | true => exact Or.inl (h hdis)
        | false =>
            exact Or.inr ⟨hsound hdis (not_lt.mp hfd), fun n hn => List.mem_singleton.mp hn⟩
  | uses fds =>
      refine ⟨h.1, h.2.imp_right fun hfds => ⟨hfds.1, fun n hn => ?_⟩⟩
      rcases List.mem_cons.mp hn with rfl | hn
      · rfl
      · exact hfds.2 n hn
  | asking =>
      unfold Phase.loaded
      split_ifs with hfd
      · exact ⟨h.1, hfd, h.2⟩
      · exact h
  | leaving =>
      unfold Phase.loaded
      split_ifs with hfd
      · exact ⟨h.1, h.2.2⟩
      · exact ⟨h.1, h.2.1, rfl, not_lt.mp hfd, h.2.2⟩
  | closing fd =>
      obtain ⟨hmanager, hdis, hfd, hpos, hexactly⟩ := h
      subst hfd
      exact ⟨hmanager, hdis, rfl, hpos, hexactly⟩
  | _ => exact hload.elim

/-- The first descriptor is the only one. -/
theorem State.Exactly.create {fd n : ℤ} (h : s.Exactly fd) (hfd : fd < 0) (hn : 0 ≤ n) :
    (s.setFile n.toNat (some .transport)).Exactly n := by
  intro k
  by_cases hk : k = n.toNat
  · subst hk
    rw [State.setFile_self]
    exact iff_of_true rfl (Int.toNat_of_nonneg hn)
  · rw [State.setFile_of_ne hk, h k]
    omega

/-- The only one closed, there is none. -/
theorem State.Exactly.close {fd n : ℤ} (h : s.Exactly n) (hfd : fd < 0) :
    (s.setFile n.toNat none).Exactly fd := by
  intro k
  by_cases hk : k = n.toNat
  · subst hk
    rw [State.setFile_self]
    exact iff_of_false (fun h => by cases h) (by omega)
  · rw [State.setFile_of_ne hk, h k]
    omega

end At

/-- The phases of all threads. -/
structure Kept (s : State) (φ : ℕ → Phase) : Prop where
  phase : ∀ t, (φ t).At s t
  free : s.manager = none → s.Exactly s.fd
  sound : s.disconnecting = false → 0 ≤ s.fd → s.Owns s.fd

section Steps

variable {s s' : State} {φ : ℕ → Phase} {t : ℕ} {ch : Choice}

/-- A step of one thread, if the phases of the others still hold. -/
theorem Kept.update {ψ : Phase} (hself : ψ.At s' t) (hothers : ∀ u, u ≠ t → (φ u).At s' u)
    (hfree : s'.manager = none → s'.Exactly s'.fd)
    (hsound : s'.disconnecting = false → 0 ≤ s'.fd → s'.Owns s'.fd) :
    Kept s' (Function.update φ t ψ) := by
  refine ⟨fun u => ?_, hfree, hsound⟩
  by_cases hu : u = t
  · subst hu
    rw [Function.update_self]
    exact hself
  · rw [Function.update_of_ne hu]
    exact hothers u hu

/-- An action that changes nothing that a phase speaks of. -/
theorem Kept.quiet {ψ : Phase} (h : Kept s φ) (hself : ψ.At s t) (hfd : s'.fd = s.fd)
    (hfiles : s'.files = s.files) (hmanager : s'.manager = s.manager)
    (hdisconnecting : s'.disconnecting = s.disconnecting) (hdisturbed : s'.disturbed = s.disturbed) :
    Kept s' (Function.update φ t ψ) := by
  have hcongr : ∀ {u : ℕ} {ψ : Phase}, ψ.At s u → ψ.At s' u := fun hψ =>
    hψ.congr hfd hmanager hdisconnecting (by rw [hdisturbed]) fun n => by rw [hfiles]
  refine .update (hcongr hself) (fun u _ => hcongr (h.phase u)) ?_ ?_
  · rw [hmanager, hfd]
    intro hnone n
    rw [hfiles]
    exact h.free hnone n
  · rw [hdisconnecting, hfd, State.Owns, hfiles]
    exact h.sound

/-- A call of `connect` or `disconnect` begins. -/
def manages {kind : Kind} : Label (system kind) → Bool
  | .act _ (.enter .opener) _ | .act _ (.enter .closer) _ => true
  | _ => false

/-- Calls of `connect` and `disconnect` do not overlap. -/
def Managed {kind : Kind} (s : State) (l : Label (system kind)) : Prop :=
  manages l = true → s.manager = none

instance {kind : Kind} (s : State) (l : Label (system kind)) : Decidable (Managed s l) :=
  inferInstanceAs (Decidable (_ → _))

/-- A call begins; a `disconnect` disturbs all that are under way. -/
theorem Kept.enter (h : Kept s φ) (role : Role)
    (hmanaged : role ≠ .user → s.manager = none) :
    Kept (s.enter t role) (Function.update φ t (Phase.next (φ t) (.enter role) ())) := by
  cases role with
  | user =>
      refine .update (fun hdis => ?_) (fun u hu => ?_) h.free h.sound
      · exact (Function.update_self t s.disconnecting s.disturbed).trans hdis
      · refine (h.phase u).congr rfl rfl rfl ?_ fun n => Iff.rfl
        exact Function.update_of_ne hu s.disconnecting s.disturbed
  | opener =>
      have hfree : s.manager = none := hmanaged fun h => by cases h
      refine .update ⟨rfl, h.free hfree⟩ (fun u hu => ?_) (fun h => by cases h) h.sound
      refine (h.phase u).other ?_ Or.inl id fun _ howns => ⟨rfl, howns⟩
      rw [hfree]
      exact fun h => by cases h
  | closer =>
      have hfree : s.manager = none := hmanaged fun h => by cases h
      refine .update ⟨rfl, rfl, h.free hfree⟩ (fun u hu => ?_) (fun h => by cases h)
        fun h => by cases h
      refine (h.phase u).other ?_ (fun _ => Or.inr rfl) (fun _ => rfl) fun _ howns => ⟨rfl, howns⟩
      rw [hfree]
      exact fun h => by cases h

/-- A call returns. -/
theorem Kept.leave (h : Kept s φ) (role : Role) (hφ : (φ t).MayLeave role) :
    Kept (s.leave role) (Function.update φ t .idle) := by
  have hat := h.phase t
  have hmanages : ∀ {s' : State}, s.manager = some t → s.Exactly s.fd →
      s' = { s with manager := none, disconnecting := false } →
        Kept s' (Function.update φ t .idle) := by
    rintro s' hmanager hexactly rfl
    refine .update trivial (fun u hu => ?_) (fun _ => hexactly) fun _ hfd => hexactly.owns hfd
    refine (h.phase u).other ?_ (fun h => by cases h) id fun _ howns => ⟨rfl, howns⟩
    rw [hmanager]
    exact fun heq => hu (Option.some.inj heq).symm
  cases hψ : φ t with
  | fresh | refused | uses fds =>
      rw [hψ] at hφ
      cases role with
      | user => exact h.quiet trivial rfl rfl rfl rfl rfl
      | opener => exact hφ.elim
      | closer => exact hφ.elim
  | vacant =>
      rw [hψ] at hφ hat
      cases role with
      | user => exact hφ.elim
      | opener => exact hmanages hat.1 hat.2.2 rfl
      | closer => exact hφ.elim
  | settled =>
      rw [hψ] at hφ hat
      cases role with
      | user => exact hφ.elim
      | opener => exact hmanages hat.1 hat.2 rfl
      | closer => exact hmanages hat.1 hat.2 rfl
  | _ =>
      rw [hψ] at hφ
      cases role <;> exact hφ.elim

/-- Another thread than the one in `connect` or `disconnect`. -/
theorem Kept.not_manager {u : ℕ} (hmanager : s.manager = some t) (hu : u ≠ t) :
    s.manager ≠ some u := by
  rw [hmanager]
  exact fun heq => hu (Option.some.inj heq).symm

/-- `fd_` gets the descriptor opened, or -1 after the one closed. -/
theorem Kept.storeFd (h : Kept s φ) {fd : ℤ} (hφ : φ t = .opened fd ∨ φ t = .closed ∧ fd = -1) :
    Kept { s with fd := fd } (Function.update φ t .settled) := by
  have hat := h.phase t
  rcases hφ with hφ | ⟨hφ, rfl⟩
  · rw [hφ] at hat
    obtain ⟨hmanager, hneg, hpos, hexactly⟩ := hat
    refine .update ⟨hmanager, hexactly⟩ (fun u hu => ?_) (fun _ => hexactly)
      fun _ _ => hexactly.owns hpos
    refine (h.phase u).other (not_manager hmanager hu) Or.inl id fun _ howns => ?_
    exact absurd howns.1 (not_le.mpr hneg)
  · rw [hφ] at hat
    obtain ⟨hmanager, hdis, hexactly⟩ := hat
    refine .update ⟨hmanager, hexactly⟩ (fun u hu => ?_) (fun _ => hexactly) fun hnot => ?_
    · refine (h.phase u).other (not_manager hmanager hu) Or.inl id fun hnot => ?_
      exact absurd hdis (by rw [hnot]; exact Bool.false_ne_true)
    · exact absurd hdis (by rw [hnot]; exact Bool.false_ne_true)

/-- `connect` opens its descriptor. -/
theorem Kept.create (h : Kept s φ) (hφ : φ t = .vacant) {fd : ℤ} (hfd : 0 ≤ fd) :
    Kept (s.setFile fd.toNat (some .transport)) (Function.update φ t (.opened fd)) := by
  have hat := h.phase t
  rw [hφ] at hat
  obtain ⟨hmanager, hneg, hexactly⟩ := hat
  refine .update ⟨hmanager, hneg, hfd, hexactly.create hneg hfd⟩ (fun u hu => ?_) (fun hnone => ?_)
    fun _ hle => absurd hle (not_le.mpr hneg)
  · refine (h.phase u).other (not_manager hmanager hu) Or.inl id fun _ howns => ?_
    exact absurd howns.1 (not_le.mpr hneg)
  · rw [show (s.setFile fd.toNat (some .transport)).manager = some t from hmanager] at hnone
    cases hnone

/-- `connect` or `disconnect` closes the transport's own. -/
theorem Kept.close (h : Kept s φ) {fd : ℤ} (hφ : φ t = .opened fd ∨ φ t = .closing fd) :
    Kept (s.setFile fd.toNat none) (Function.update φ t (φ t).afterClose) := by
  have hat := h.phase t
  have hnone : ∀ {s' : State}, s'.manager = some t → s'.manager = none → s'.Exactly s'.fd := by
    intro s' hmanager hnone
    rw [hmanager] at hnone
    cases hnone
  rcases hφ with hφ | hφ
  · rw [hφ] at hat ⊢
    obtain ⟨hmanager, hneg, hpos, hexactly⟩ := hat
    refine .update ⟨hmanager, hneg, hexactly.close hneg⟩ (fun u hu => ?_) (hnone hmanager)
      fun _ hle => absurd hle (not_le.mpr hneg)
    refine (h.phase u).other (not_manager hmanager hu) Or.inl id fun _ howns => ?_
    exact absurd howns.1 (not_le.mpr hneg)
  · rw [hφ] at hat ⊢
    obtain ⟨hmanager, hdis, -, -, hexactly⟩ := hat
    have hclosed : ∀ {P : Prop}, s.disconnecting = false → P :=
      fun hnot => absurd hdis (by rw [hnot]; exact Bool.false_ne_true)
    refine .update ⟨hmanager, hdis, hexactly.close (by omega)⟩ (fun u hu => ?_) (hnone hmanager)
      fun hnot => hclosed hnot
    exact (h.phase u).other (not_manager hmanager hu) Or.inl id fun hnot => hclosed hnot

/-- What is to be closed is open, and the transport's own. -/
theorem Phase.Ok.owned {fd : ℤ} {ψ : Phase} (hok : ψ.Ok (.close fd)) (hat : ψ.At s t) :
    s.Owns fd := by
  rcases hok with rfl | rfl
  · exact hat.2.2.2.owns hat.2.2.1
  · exact hat.2.2.2.2.owns hat.2.2.2.1

/-- **Every action** keeps the phases. -/
theorem Kept.act (h : Kept s φ) {a : Action} {r : a.Res} (hok : (φ t).Ok a)
    (hmanaged : ∀ role, a = .enter role → role ≠ .user → s.manager = none)
    (hs : perform t a ch s = some (r, s')) :
    Kept s' (Function.update φ t ((φ t).next a r)) := by
  have hat := h.phase t
  cases a with
  | enter role =>
      obtain ⟨-, rfl⟩ := Prod.mk.inj (Option.some.inj hs)
      exact h.enter role (hmanaged role rfl)
  | leave role =>
      obtain ⟨-, rfl⟩ := Prod.mk.inj (Option.some.inj hs)
      exact h.leave role hok
  | loadFd =>
      obtain ⟨rfl, rfl⟩ := Prod.mk.inj (Option.some.inj hs)
      exact h.quiet (hat.loaded hok h.sound) rfl rfl rfl rfl rfl
  | storeFd fd =>
      obtain ⟨-, rfl⟩ := Prod.mk.inj (Option.some.inj hs)
      exact h.storeFd hok
  | create =>
      cases ch with
      | returned fd =>
          simp only [perform] at hs
          split_ifs at hs with hneg hfree
          · obtain ⟨rfl, rfl⟩ := Prod.mk.inj (Option.some.inj hs)
            have hnext : (φ t).next .create fd = .vacant := if_pos hneg
            have hvacant : (φ t) = .vacant := hok
            rw [hnext]
            exact h.quiet (hvacant ▸ hat) rfl rfl rfl rfl rfl
          · obtain ⟨rfl, rfl⟩ := Prod.mk.inj (Option.some.inj hs)
            have hnext : (φ t).next .create fd = .opened fd := if_neg hneg
            rw [hnext]
            exact h.create hok (not_lt.mp hneg)
      | _ => cases hs
  | close fd =>
      obtain ⟨-, rfl⟩ := Prod.mk.inj (Option.some.inj hs)
      rw [if_pos (Phase.Ok.owned hok hat).1]
      exact h.close hok
  | loadLink | storeLink _ | resetRing | push _ =>
      obtain ⟨-, rfl⟩ := Prod.mk.inj (Option.some.inj hs)
      exact h.quiet hat rfl rfl rfl rfl rfl
  | popFrame =>
      simp only [perform] at hs
      split at hs
      · obtain ⟨-, rfl⟩ := Prod.mk.inj (Option.some.inj hs)
        exact h.quiet hat rfl rfl rfl rfl rfl
      · obtain ⟨-, rfl⟩ := Prod.mk.inj (Option.some.inj hs)
        exact h.quiet hat rfl rfl rfl rfl rfl
  | lockTx | unlockTx =>
      simp only [perform] at hs
      split_ifs at hs
      obtain ⟨-, rfl⟩ := Prod.mk.inj (Option.some.inj hs)
      exact h.quiet hat rfl rfl rfl rfl rfl
  | again | undefined => exact r.elim
  | _ =>
      obtain ⟨q, -, heq⟩ := Option.map_eq_some_iff.mp hs
      obtain ⟨-, rfl⟩ := Prod.mk.inj heq
      exact h.quiet hat rfl rfl rfl rfl rfl

/-- Other code opens and closes files of its own. -/
theorem Kept.env {e : Outside} (h : Kept s φ) (hs : env e s = some s') : Kept s' φ := by
  have hsame : ∀ {n : ℕ} {before after : Option Holder}, s.files n = before →
      before ≠ some .transport → after ≠ some .transport →
        Kept (s.setFile n after) φ := by
    intro n before after hn hbefore hafter
    have hfiles : ∀ k, (s.setFile n after).files k = some .transport ↔
        s.files k = some .transport := by
      intro k
      by_cases hk : k = n
      · subst hk
        rw [State.setFile_self, hn]
        exact iff_of_false hafter hbefore
      · rw [State.setFile_of_ne hk]
    refine ⟨fun t => (h.phase t).congr rfl rfl rfl rfl hfiles, fun hnone k => ?_, ?_⟩
    · rw [hfiles k]
      exact h.free hnone k
    · exact fun hdis hfd => ⟨hfd, (hfiles _).mpr (h.sound hdis hfd).2⟩
  cases e with
  | opens n =>
      simp only [Posix.env] at hs
      split_ifs at hs with hn
      obtain rfl := Option.some.inj hs
      exact hsame hn (fun h => by cases h) fun h => by cases h
  | closes n =>
      simp only [Posix.env] at hs
      split_ifs at hs with hn
      obtain rfl := Option.some.inj hs
      exact hsame hn (fun h => by cases h) fun h => by cases h

/-- The table holds what the phases say of the transport as constructed. -/
theorem kept_initial (taken : ℕ → Bool) : Kept (State.initial taken) fun _ => .idle := by
  have hfd : (State.initial taken).fd = -1 := rfl
  have hfiles : ∀ n, (State.initial taken).files n = if taken n then some .other else none :=
    fun _ => rfl
  refine ⟨fun _ => trivial, fun _ n => ?_, fun _ hle => ?_⟩
  · rw [hfd, hfiles]
    refine iff_of_false ?_ (by omega)
    split_ifs <;> simp
  · rw [hfd] at hle
    exact absurd hle (by decide)

end Steps

/-! ### Runs -/

section Runs

variable {kind : Kind} {taken : ℕ → Bool} {ls : List (Label (system kind))}
  {c : Config (system kind)}

/-- **Every managed run** keeps what the phases say of the table. -/
theorem kept (h : Path Managed (start kind taken) ls c) :
    ∃ φ, (phases kind).Follows c φ ∧ Kept c.state φ := by
  induction h with
  | nil => exact ⟨_, Phases.start_follows _, kept_initial taken⟩
  | @snoc c₁ c₂ ls l _ hstep hC ih =>
      obtain ⟨φ, hfollows, hkept⟩ := ih
      refine ⟨_, hfollows.step (body_keeps kind) hstep, ?_⟩
      cases hstep with
      | call hidle hs =>
          obtain rfl := Option.some.inj hs
          exact hkept
      | @act t a k r s ch ht hs =>
          have hthread := hfollows t
          rw [ht] at hthread
          refine hkept.act hthread.1 (fun role heq hrole => ?_) hs
          subst heq
          cases role with
          | user => exact absurd rfl hrole
          | opener => exact hC rfl
          | closer => exact hC rfl
      | env hs => exact hkept.env hs

/-- **Descriptors**: between calls of `connect` and `disconnect` the transport's open descriptors
are `fd_` alone, none where it is negative; it closes its own descriptors only; and a system call
is made on the transport's own descriptor, unless a `disconnect` was under way at some time since
the call of the thread that makes it. -/
theorem descriptors_owned (h : Path Managed (start kind taken) ls c) :
    (c.state.manager = none → ∀ n : ℕ, c.state.files n = some .transport ↔ (n : ℤ) = c.state.fd) ∧
      (∀ t fd k, c.threads t = .act (.close fd) k → c.state.Owns fd) ∧
        ∀ t a k fd, c.threads t = .act a k → a.descriptor? = some fd →
          c.state.disturbed t = false → c.state.Owns fd := by
  obtain ⟨φ, hfollows, hkept⟩ := kept h
  have hok : ∀ {t a k}, c.threads t = .act a k → (φ t).Ok a := by
    intro t a k ht
    have hthread := hfollows t
    rw [ht] at hthread
    exact hthread.1
  refine ⟨hkept.free, fun t fd k ht => Phase.Ok.owned (hok ht) (hkept.phase t), ?_⟩
  intro t a k fd ht hfd hcalm
  have hallowed := hok ht
  have hat := hkept.phase t
  have huses : (∃ fds, φ t = .uses fds ∧ fd ∈ fds) → c.state.Owns fd := by
    rintro ⟨fds, hφ, hmem⟩
    rw [hφ] at hat
    obtain ⟨howns, hfds⟩ := hat.2.resolve_left (by rw [hcalm]; exact Bool.false_ne_true)
    rw [hfds fd hmem]
    exact howns
  have hopened : φ t = .opened fd → c.state.Owns fd := by
    intro hφ
    rw [hφ] at hat
    exact hat.2.2.2.owns hat.2.2.1
  cases a with
  | setup n what | getFlags n =>
      obtain rfl := Option.some.inj hfd
      exact hopened hallowed
  | close n =>
      obtain rfl := Option.some.inj hfd
      exact Phase.Ok.owned hallowed hat
  | write n data | readFrame n | poll n | readBytes n =>
      obtain rfl := Option.some.inj hfd
      exact huses hallowed
  | _ => cases hfd

end Runs

/-- `connect` of a serial port, which opens as descriptor 3. -/
def connecting : List (Event (system .serial)) :=
  [.call 0 .connect, .step 0 .go, .step 0 .go, .step 0 (.returned 3), .step 0 (.returned 0),
    .step 0 (.returned 0), .step 0 .go, .step 0 .go, .step 0 .go]

/-- Then another thread has read `fd_` twice, and is to call `poll`. -/
def polling : List (Event (system .serial)) :=
  connecting ++ [.call 1 (.receive 1), .step 1 .go, .step 1 .go, .step 1 .go]

/-- The descriptor that the thread is to act on, who has it open, and whether the call is
disturbed. -/
def nextUse (t : ℕ) (c : Config (system .serial)) : Option (ℤ × Option Holder × Bool) :=
  match c.threads t with
  | .ret _ => none
  | .act a _ => a.descriptor?.map fun fd => (fd, c.state.files fd.toNat, c.state.disturbed t)

theorem descriptors_owned_polling : ∃ ls c,
    Path Managed (start .serial fun _ => false) ls c ∧ nextUse 1 c = some (3, some .transport, false) ∧
      (c.state.manager = none →
        ∀ n : ℕ, c.state.files n = some .transport ↔ (n : ℤ) = c.state.fd) ∧
        (∀ t fd k, c.threads t = .act (.close fd) k → c.state.Owns fd) ∧
          ∀ t a k fd, c.threads t = .act a k → a.descriptor? = some fd →
            c.state.disturbed t = false → c.state.Owns fd := by
  have hruns : ((start .serial fun _ => false).log Managed polling).map
      (fun run => nextUse 1 run.2) = some (some (3, some .transport, false)) := rfl
  obtain ⟨⟨ls, c⟩, hlog, huse⟩ := Option.map_eq_some_iff.mp hruns
  exact ⟨ls, c, log_path hlog, huse, descriptors_owned (log_path hlog)⟩

/-- **A stale descriptor**: a `disconnect` that overlaps a `transmit` closes the descriptor that the
latter has read, other code opens a file under its number, and the `write` goes there. -/
theorem stale_descriptor : ∃ ls c, Path Managed (start .serial fun _ => false) ls c ∧
    nextUse 1 c = some (3, some .other, true) := by
  have hruns : ((start .serial fun _ => false).log Managed (connecting ++
      [.call 1 (.transmit ⟨canEffFlag, 8, Vector.replicate 8 0⟩), .step 1 .go, .step 1 .go,
        .step 1 .go, .step 1 .go, .call 0 .disconnect, .step 0 .go, .step 0 .go, .step 0 .go,
        .step 0 .go, .env (.opens 3)])).map
      (fun run => nextUse 1 run.2) = some (some (3, some .other, true)) := rfl
  obtain ⟨⟨ls, c⟩, hlog, huse⟩ := Option.map_eq_some_iff.mp hruns
  exact ⟨ls, c, log_path hlog, huse⟩

end Posix

end Robstride
