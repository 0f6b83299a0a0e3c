import Robstride.Sdk.Types

/-!
# Sdk — SocketCAN transport

`SocketCANTransport` of `robstride_transport.cpp`, as functions of its descriptor and its link flag,
with the answers of the operating system as arguments: what each system call of `connect` returned,
and the byte count and `errno` of `write` and `read`.  The answers of `setsockopt` and `close` are
not looked at.
-/

namespace Robstride

/-- The values of `errno` that the transport tells apart. -/
inductive Errno where
  | enetdown
  | enxio
  | enodev
  | ebadf
  | eagain
  | ewouldblock
  | eintr
  | other (code : ℤ)
  deriving DecidableEq

/-- `sizeof(struct can_frame)`. -/
def sizeofCanFrame : ℤ := 16

/-- The descriptor and the link flag. -/
structure SocketCANTransport where
  fd : ℤ
  linkOk : Bool
  deriving DecidableEq

namespace SocketCANTransport

/-- The transport as constructed. -/
def initial : SocketCANTransport where
  fd := -1
  linkOk := false

/-- What the system calls of `connect` return, in their order. -/
structure Opening where
  socket : ℤ
  getIndex : ℤ
  getFlags : ℤ
  /-- `ifr.ifr_flags & IFF_UP`. -/
  isUp : Bool
  bind : ℤ
  deriving DecidableEq

/-- The first failure of a system call decides the result; nothing is stored before all succeeded.
-/
def connect (t : SocketCANTransport) (sys : Opening) : Result × SocketCANTransport :=
  if 0 ≤ t.fd then (.success, t)
  else if sys.socket < 0 then (.errTransport, t)
  else if sys.getIndex < 0 then (.errTransport, t)
  else if sys.getFlags < 0 then (.errTransport, t)
  else if sys.isUp = false then (.errNotConnected, t)
  else if sys.bind < 0 then (.errTransport, t)
  else (.success, { fd := sys.socket, linkOk := true })

/-- The result, the frames handed to `write`, and the transport left. -/
def transmit (t : SocketCANTransport) (frame : CanFrame) (nbytes : ℤ) (err : Errno) :
    Result × List CanFrame × SocketCANTransport :=
  if t.fd < 0 ∨ t.linkOk = false then (.errDisconnected, [], t)
  else if nbytes = sizeofCanFrame then (.success, [frame], t)
  else if err = .enetdown ∨ err = .enxio ∨ err = .enodev ∨ err = .ebadf then
    (.errDisconnected, [frame], { t with linkOk := false })
  else (.errWriteFailed, [frame], t)

/-- `.ok frame` where the code returns `SUCCESS`, `frame` being what `read` stored. -/
def receive (t : SocketCANTransport) (frame : CanFrame) (nbytes : ℤ) (err : Errno) :
    Except Result CanFrame × SocketCANTransport :=
  if t.fd < 0 ∨ t.linkOk = false then (.error .errDisconnected, t)
  else if nbytes = sizeofCanFrame then (.ok frame, t)
  else if err = .eagain ∨ err = .ewouldblock ∨ err = .eintr then (.error .errTimeout, t)
  else (.error .errDisconnected, { t with linkOk := false })

/-- The flag first, then the descriptor where there is one. -/
def disconnect (t : SocketCANTransport) : SocketCANTransport where
  fd := if 0 ≤ t.fd then -1 else t.fd
  linkOk := false

/-- SocketCAN is connected while its flag is set. -/
def isConnected (t : SocketCANTransport) : Bool := t.linkOk

/-! ### Runs -/

/-- A call, with the answers of the system. -/
inductive Call where
  | connect (sys : Opening)
  | transmit (frame : CanFrame) (nbytes : ℤ) (err : Errno)
  | receive (frame : CanFrame) (nbytes : ℤ) (err : Errno)
  | disconnect

/-- What a call leaves. -/
def call (t : SocketCANTransport) : Call → SocketCANTransport
  | .connect sys => (t.connect sys).2
  | .transmit frame nbytes err => (t.transmit frame nbytes err).2.2
  | .receive frame nbytes err => (t.receive frame nbytes err).2
  | .disconnect => t.disconnect

/-- What a run of calls leaves, from the transport as constructed. -/
def run (calls : List Call) : SocketCANTransport := calls.foldl call initial

end SocketCANTransport

end Robstride
