import Robstride.Sdk.Receive
import Robstride.Support.Pool

/-!
# Sdk — The transports, system call by system call

`connect`, `transmit`, `receive` and `disconnect` of the two transports in `robstride_transport.cpp`
as sequences of atomic actions: reads and writes of the members, `tx_mutex_`, the ring buffer, and
the system calls, which name the descriptor they act on.  The process has one table of descriptors,
which other code uses too, so that a number may come to stand for another file.

`fd_` is a plain `int`; each of its reads and writes is one action here.
-/

namespace Robstride

open Support Support.Pool

namespace Posix

/-! ### State -/

/-- Whose open file a descriptor stands for. -/
inductive Holder where
  | transport
  | other
  deriving DecidableEq

/-- What a call does about descriptors: `transmit` and `receive` use one, `connect` opens one,
`disconnect` closes one. -/
inductive Role where
  | user
  | opener
  | closer
  deriving DecidableEq

/-- One transport, its `tx_mutex_`, and the descriptors of the process. -/
structure State where
  fd : ℤ
  linkOk : Bool
  ringBuf : SerialRingBuffer
  /-- The owner of `tx_mutex_`. -/
  txMutex : Option ℕ
  /-- The open descriptors of the process. -/
  files : ℕ → Option Holder
  /-- Record only: the thread in `connect` or `disconnect`. -/
  manager : Option ℕ
  /-- Record only: it is in `disconnect`. -/
  disconnecting : Bool
  /-- Record only: a `disconnect` was under way at some time since the thread's last call. -/
  disturbed : ℕ → Bool

namespace State

/-- The transport as constructed; other code has the descriptors of `taken` open. -/
def initial (taken : ℕ → Bool) : State where
  fd := -1
  linkOk := false
  ringBuf := .initial
  txMutex := none
  files n := if taken n then some .other else none
  manager := none
  disconnecting := false
  disturbed _ := false

/-- The descriptor is open. -/
def Open (s : State) (fd : ℤ) : Prop := 0 ≤ fd ∧ s.files fd.toNat ≠ none

instance (s : State) (fd : ℤ) : Decidable (s.Open fd) := instDecidableAnd

/-- The descriptor is open, and the transport opened it. -/
def Owns (s : State) (fd : ℤ) : Prop := 0 ≤ fd ∧ s.files fd.toNat = some .transport

/-- A descriptor comes to stand for another file, or for none. -/
def setFile (s : State) (n : ℕ) (holder : Option Holder) : State :=
  { s with files := Function.update s.files n holder }

/-- What the descriptor stands for now. -/
@[simp] theorem setFile_self (s : State) (n : ℕ) (holder : Option Holder) :
    (s.setFile n holder).files n = holder := by
  unfold setFile
  exact Function.update_self n holder s.files

/-- The others stand for what they stood for. -/
theorem setFile_of_ne {n k : ℕ} (h : k ≠ n) (s : State) (holder : Option Holder) :
    (s.setFile n holder).files k = s.files k := by
  unfold setFile
  exact Function.update_of_ne h holder s.files

/-- A call begins. -/
def enter (s : State) (t : ℕ) : Role → State
  | .user => { s with disturbed := Function.update s.disturbed t s.disconnecting }
  | .opener => { s with manager := some t }
  | .closer => { s with manager := some t, disconnecting := true, disturbed := fun _ => true }

/-- It returns. -/
def leave (s : State) : Role → State
  | .user => s
  | .opener | .closer => { s with manager := none, disconnecting := false }

end State

/-! ### Actions -/

/-- The system calls that set a descriptor up. -/
inductive Setup where
  | getIndex
  | bind
  | rcvTimeo
  | sndTimeo
  | loopback
  | recvOwnMsgs
  | tcgetattr
  | tcsetattr

/-- What `write` is given. -/
inductive Written where
  | frame (frame : CanFrame)
  | message (msg : Vector Byte 17)

/-- The atomic actions: the members, the ring buffer, `tx_mutex_` and the system calls. -/
inductive Action where
  | enter (role : Role)
  | leave (role : Role)
  | loadFd
  | storeFd (fd : ℤ)
  | loadLink
  | storeLink (ok : Bool)
  | resetRing
  | push (chunk : Chunk)
  | popFrame
  | lockTx
  | unlockTx
  /-- `socket` or `open`. -/
  | create
  | setup (fd : ℤ) (what : Setup)
  /-- `ioctl` with `SIOCGIFFLAGS`, and whether `IFF_UP` is among the flags. -/
  | getFlags (fd : ℤ)
  | close (fd : ℤ)
  | write (fd : ℤ) (data : Written)
  | readFrame (fd : ℤ)
  | poll (fd : ℤ)
  | readBytes (fd : ℤ)
  /-- A round of the loop of `receive` past the bound that the call was given. -/
  | again
  /-- A `memcpy` past `frame.data`. -/
  | undefined

/-- What an action answers. -/
@[reducible] def Action.Res : Action → Type
  | .enter _ | .leave _ | .storeFd _ | .storeLink _ | .resetRing | .push _ | .lockTx | .unlockTx
  | .close _ => Unit
  | .loadFd | .create | .setup _ _ => ℤ
  | .loadLink => Bool
  | .popFrame => Option (Vector Byte 17)
  | .getFlags _ => ℤ × Bool
  | .write _ _ => ℤ × Errno
  | .readFrame _ => SocketRead
  | .poll _ => Polled
  | .readBytes _ => ReadResult
  | .again | .undefined => Empty

/-- The descriptor a system call acts on. -/
def Action.descriptor? : Action → Option ℤ
  | .setup fd _ | .getFlags fd | .close fd | .write fd _ | .readFrame fd | .poll fd
  | .readBytes fd => some fd
  | _ => none

/-- What the kernel answers. -/
inductive Choice where
  | go
  | returned (r : ℤ)
  | flags (r : ℤ) (isUp : Bool)
  | count (nbytes : ℤ) (err : Errno)
  | frame (answer : SocketRead)
  | polled (answer : Polled)
  | bytes (answer : ReadResult)

/-- What a system call on a descriptor may answer: one that is not open fails with `EBADF`. -/
def State.reply (s : State) : (a : Action) → Choice → Option a.Res
  | .setup fd _, .returned r => if s.Open fd ∨ r < 0 then some r else none
  | .getFlags fd, .flags r isUp => if s.Open fd ∨ r < 0 then some (r, isUp) else none
  | .write fd _, .count nbytes err =>
      if s.Open fd ∨ nbytes < 0 ∧ err = .ebadf then some (nbytes, err) else none
  | .readFrame fd, .frame answer =>
      if s.Open fd ∨ answer.nbytes < 0 ∧ answer.err = .ebadf then some answer else none
  | .poll fd, .polled answer => if s.Open fd ∨ answer.readable = false then some answer else none
  | .readBytes fd, .bytes answer => some (if s.Open fd then answer else .failed .ebadf)
  | _, _ => none

/-- What an action of thread `t` answers and leaves, `none` where it cannot. -/
def perform (t : ℕ) : (a : Action) → Choice → State → Option (a.Res × State)
  | .enter role, _, s => some ((), s.enter t role)
  | .leave role, _, s => some ((), s.leave role)
  | .loadFd, _, s => some (s.fd, s)
  | .storeFd fd, _, s => some ((), { s with fd := fd })
  | .loadLink, _, s => some (s.linkOk, s)
  | .storeLink ok, _, s => some ((), { s with linkOk := ok })
  | .resetRing, _, s => some ((), { s with ringBuf := s.ringBuf.reset })
  | .push chunk, _, s => some ((), { s with ringBuf := s.ringBuf.push chunk.bytes })
  | .popFrame, _, s =>
      match s.ringBuf.popFrame 17 with
      | none => some (none, s)
      | some (raw, ringBuf) => some (some raw, { s with ringBuf := ringBuf })
  | .lockTx, _, s => if s.txMutex = none then some ((), { s with txMutex := some t }) else none
  | .unlockTx, _, s => if s.txMutex = some t then some ((), { s with txMutex := none }) else none
  | .create, .returned fd, s =>
      if fd < 0 then some (fd, s)
      else if s.files fd.toNat = none then some (fd, s.setFile fd.toNat (some .transport))
      else none
  | .create, _, _ => none
  | .close fd, _, s => some ((), if 0 ≤ fd then s.setFile fd.toNat none else s)
  | a, ch, s => (s.reply a ch).map fun r => (r, s)

/-! ### Programs -/

/-- A program over the actions. -/
abbrev Cmd (α : Type) := Prog Action Action.Res α

/-- A failure of `connect` behind the open descriptor. -/
def giveUp (fd : ℤ) (r : Result) : Cmd Result := do
  let _ ← .perform (Action.close fd)
  return r

namespace SocketCANTransport

/-- `SocketCANTransport::connect`: the descriptor is stored once all went well, and each
failure closes it. -/
def connect : Cmd Result := do
  if 0 ≤ (← .perform Action.loadFd) then return .success
  else
    let s ← .perform Action.create
    if s < 0 then return .errTransport
    else if (← .perform (Action.setup s .getIndex)) < 0 then giveUp s .errTransport
    else
      let flags ← .perform (Action.getFlags s)
      if flags.1 < 0 then giveUp s .errTransport
      else if flags.2 = false then giveUp s .errNotConnected
      else if (← .perform (Action.setup s .bind)) < 0 then giveUp s .errTransport
      else
        let _ ← .perform (Action.setup s .rcvTimeo)
        let _ ← .perform (Action.setup s .sndTimeo)
        let _ ← .perform (Action.setup s .loopback)
        let _ ← .perform (Action.setup s .recvOwnMsgs)
        let _ ← .perform (Action.storeFd s)
        let _ ← .perform (Action.storeLink true)
        return .success

/-- `fd_ < 0 || !link_ok_`; the flag is read where the descriptor is not negative. -/
def isDown : Cmd Bool := do
  if (← .perform Action.loadFd) < 0 then return true
  else return !(← .perform Action.loadLink)

/-- `SocketCANTransport::transmit` under `tx_mutex_`. -/
def writeFrame (frame : CanFrame) : Cmd Result := do
  let fd ← .perform Action.loadFd
  let answer ← .perform (Action.write fd (.frame frame))
  if answer.1 = sizeofCanFrame then return .success
  else if answer.2 = .enetdown ∨ answer.2 = .enxio ∨ answer.2 = .enodev ∨ answer.2 = .ebadf then
    let _ ← .perform (Action.storeLink false)
    return .errDisconnected
  else return .errWriteFailed

/-- `SocketCANTransport::transmit`. -/
def transmit (frame : CanFrame) : Cmd Result := do
  if ← isDown then return .errDisconnected
  else
    let _ ← .perform Action.lockTx
    let r ← writeFrame frame
    let _ ← .perform Action.unlockTx
    return r

/-- `SocketCANTransport::receive`. -/
def receive : Cmd (Except Result CanFrame) := do
  if ← isDown then return .error .errDisconnected
  else
    let fd ← .perform Action.loadFd
    let answer ← .perform (Action.readFrame fd)
    if answer.nbytes = sizeofCanFrame then return .ok answer.frame
    else if answer.err = .eagain ∨ answer.err = .ewouldblock ∨ answer.err = .eintr then
      return .error .errTimeout
    else
      let _ ← .perform (Action.storeLink false)
      return .error .errDisconnected

/-- `SocketCANTransport::disconnect`. -/
def disconnect : Cmd Unit := do
  let _ ← .perform (Action.storeLink false)
  if 0 ≤ (← .perform Action.loadFd) then
    let fd ← .perform Action.loadFd
    let _ ← .perform (Action.close fd)
    .perform (Action.storeFd (-1))
  else return ()

/-- `SocketCANTransport::is_connected`. -/
def isConnected : Cmd Bool := .perform Action.loadLink

end SocketCANTransport

namespace SerialTransport

/-- `SerialTransport::connect`: the buffer is emptied before the descriptor is stored. -/
def connect : Cmd Result := do
  if 0 ≤ (← .perform Action.loadFd) then return .success
  else
    let s ← .perform Action.create
    if s < 0 then return .errTransport
    else if (← .perform (Action.setup s .tcgetattr)) ≠ 0 then giveUp s .errTransport
    else if (← .perform (Action.setup s .tcsetattr)) ≠ 0 then giveUp s .errTransport
    else
      let _ ← .perform Action.resetRing
      let _ ← .perform (Action.storeFd s)
      return .success

/-- `SerialTransport::transmit`: the descriptor is tested before `tx_mutex_` is taken and read
again under it. -/
def transmit (frame : CanFrame) : Cmd Result := do
  if (← .perform Action.loadFd) < 0 then return .errDisconnected
  else if frame.canId &&& canEffFlag = 0 then return .errProtocolMismatch
  else if 8 < frame.canDlc.toNat then return nomatch ← .perform Action.undefined
  else
    let _ ← .perform Action.lockTx
    let fd ← .perform Action.loadFd
    let answer ← .perform (Action.write fd (.message (Robstride.SerialTransport.atFrame frame)))
    let _ ← .perform Action.unlockTx
    return if answer.1 = 17 then .success else .errWriteFailed

/-- The loop of `receive`; in the run considered it makes at most `rounds` rounds that read. -/
def drain (pollfd : ℤ) : ℕ → Cmd Unit
  | 0 => do
      if (← .perform (Action.poll pollfd)).readable then return nomatch ← .perform Action.again
      else return ()
  | rounds + 1 => do
      if (← .perform (Action.poll pollfd)).readable then
        let fd ← .perform Action.loadFd
        match ← .perform (Action.readBytes fd) with
        | .bytes chunk =>
            let _ ← .perform (Action.push chunk)
            drain pollfd rounds
        | .eof => return ()
        | .failed _ => return ()
      else return ()

/-- `SerialTransport::receive`: `poll` keeps the descriptor read first, each `read` reads it
again. -/
def receive (rounds : ℕ) : Cmd (Except Result CanFrame) := do
  if (← .perform Action.loadFd) < 0 then return .error .errDisconnected
  else
    let pollfd ← .perform Action.loadFd
    let _ ← drain pollfd rounds
    match ← .perform Action.popFrame with
    | none => return .error .errTimeout
    | some raw => return .ok (Robstride.SerialTransport.parseRaw raw)

/-- `SerialTransport::disconnect`. -/
def disconnect : Cmd Unit := do
  if 0 ≤ (← .perform Action.loadFd) then
    let fd ← .perform Action.loadFd
    let _ ← .perform (Action.close fd)
    let _ ← .perform (Action.storeFd (-1))
    .perform Action.resetRing
  else .perform Action.resetRing

/-- `SerialTransport::is_connected`. -/
def isConnected : Cmd Bool := return decide (0 ≤ (← .perform Action.loadFd))

end SerialTransport

/-! ### The pool -/

/-- The two transports. -/
inductive Kind where
  | socketCan
  | serial

/-- A call; `disconnect` is the destructor's call too. -/
inductive Op where
  | connect
  | transmit (frame : CanFrame)
  /-- With a bound on the rounds of the serial loop. -/
  | receive (rounds : ℕ)
  | disconnect
  | isConnected

/-- What a call does about descriptors. -/
def Op.role : Op → Role
  | .connect => .opener
  | .disconnect => .closer
  | .transmit _ | .receive _ | .isConnected => .user

/-- What a call returns. -/
inductive Output where
  | result (r : Result)
  | received (r : Except Result CanFrame)
  | done
  | connected (b : Bool)

/-- The program of a call. -/
def call : Kind → Op → Cmd Output
  | .socketCan, .connect => .result <$> SocketCANTransport.connect
  | .socketCan, .transmit frame => .result <$> SocketCANTransport.transmit frame
  | .socketCan, .receive _ => .received <$> SocketCANTransport.receive
  | .socketCan, .disconnect => (fun _ => .done) <$> SocketCANTransport.disconnect
  | .socketCan, .isConnected => .connected <$> SocketCANTransport.isConnected
  | .serial, .connect => .result <$> SerialTransport.connect
  | .serial, .transmit frame => .result <$> SerialTransport.transmit frame
  | .serial, .receive rounds => .received <$> SerialTransport.receive rounds
  | .serial, .disconnect => (fun _ => .done) <$> SerialTransport.disconnect
  | .serial, .isConnected => .connected <$> SerialTransport.isConnected

/-- The program of a call between the records of its start and its return. -/
def body (kind : Kind) (op : Op) : Cmd Unit := do
  let _ ← .perform (Action.enter op.role)
  let _ ← call kind op
  .perform (Action.leave op.role)

/-- What other code of the process does to the table of descriptors. -/
inductive Outside where
  | opens (n : ℕ)
  | closes (n : ℕ)

/-- Other code opens a free number, and closes only what it opened. -/
def env : Outside → State → Option State
  | .opens n, s => if s.files n = none then some (s.setFile n (some .other)) else none
  | .closes n, s => if s.files n = some .other then some (s.setFile n none) else none

/-- The threads of the process on one transport. -/
@[reducible] def system (kind : Kind) : System where
  Act := Action
  Res := Action.Res
  State := State
  Choice := Choice
  Op := Op
  Env := Outside
  perform := perform
  body := body kind
  call _ _ s := some s
  env := env

/-- Every thread idle, the transport as constructed. -/
abbrev start (kind : Kind) (taken : ℕ → Bool) : Config (system kind) :=
  Pool.start (State.initial taken)

end Posix

end Robstride
