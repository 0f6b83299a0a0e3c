import Robstride.Sdk.Serial
import Robstride.Sdk.SocketCan

/-!
# Sdk — Receive loops

`ITransport` of `robstride_transport.h` with its two implementations, and the loops of
`robstride_motor.cpp` that call it until it is disconnected: `Motor::receive`,
`Motor::process_shared_socket` and `Motor::receive_all`.
-/

namespace Robstride

/-- An implementation of `ITransport`, as functions of its state `σ` and of what the system
answers: `ω` to `connect`, `τ` to `transmit`, `α` to `receive`.  The result of `transmit` is `none`
where the code reads past its frame. -/
structure ITransport (σ ω τ α : Type) where
  connect : σ → ω → Result × σ
  transmit : σ → CanFrame → τ → Option Result × σ
  receive : σ → α → Except Result CanFrame × σ
  disconnect : σ → σ
  isConnected : σ → Bool

/-! ### SocketCAN -/

/-- What one `read` of the socket leaves: the frame, the count and `errno`. -/
structure SocketRead where
  frame : CanFrame
  nbytes : ℤ
  err : Errno

/-- `SocketCANTransport` as an `ITransport`. -/
def socketCan :
    ITransport SocketCANTransport SocketCANTransport.Opening (ℤ × Errno) SocketRead where
  connect t sys := t.connect sys
  transmit t frame answer :=
    (some (t.transmit frame answer.1 answer.2).1, (t.transmit frame answer.1 answer.2).2.2)
  receive t answer := t.receive answer.frame answer.nbytes answer.err
  disconnect t := t.disconnect
  isConnected t := t.isConnected

/-! ### Serial -/

/-- The bits of `pfd.revents`. -/
structure Revents where
  pollin : Bool
  pollhup : Bool
  pollerr : Bool
  pollnval : Bool

/-- What `poll` returns: 0, a negative number, or a positive count. -/
inductive Polled where
  | idle
  | failed (err : Errno)
  | ready (revents : Revents)

/-- `poll` reports `POLLIN`. -/
def Polled.readable : Polled → Bool
  | .idle => false
  | .failed _ => false
  | .ready revents => revents.pollin

/-- What `read` into `tmp[64]` returns: a positive count, 0, or a negative number. -/
inductive ReadResult where
  | bytes (chunk : Chunk)
  | eof
  | failed (err : Errno)

/-- A round of the loop of `SerialTransport::receive`; `read` is called where the poll reports
`POLLIN`. -/
structure Round where
  polled : Polled
  read : ReadResult

/-- The chunks the loop pushes.  Where the rounds end, `poll` returns 0. -/
def chunksOf : List Round → List Chunk
  | [] => []
  | r :: rounds =>
      if r.polled.readable then
        match r.read with
        | .bytes chunk => chunk :: chunksOf rounds
        | .eof => []
        | .failed _ => []
      else []

/-- `SerialTransport` as an `ITransport`. -/
def serial : ITransport SerialTransport (Option ℕ) ℤ (List Round) where
  connect t opened := t.connect opened
  transmit t frame nbytes := ((t.transmit frame nbytes).map Prod.fst, t)
  receive t rounds := t.receive (chunksOf rounds)
  disconnect t := t.disconnect
  isConnected t := t.isConnected

/-! ### The loops -/

namespace ITransport

variable {σ ω τ α : Type} (T : ITransport σ ω τ α)

/-- `Motor::receive`, with what the system answers to its calls: the frames handed to
`process_frame` and the transport when the loop leaves, `none` where it still runs. -/
def motorReceive (t : σ) : List α → Option (List CanFrame × σ)
  | [] => if T.isConnected t then none else some ([], t)
  | a :: answers =>
      if T.isConnected t then
        match (T.receive t a).1 with
        | .ok frame =>
            (motorReceive (T.receive t a).2 answers).map fun out => (frame :: out.1, out.2)
        | .error _ => motorReceive (T.receive t a).2 answers
      else some ([], t)

/-- The loop of `Motor::receive_all`; `shared` while the control is in the loop of
`process_shared_socket`, which leaves at the first call that returns no frame. -/
def receiveAllLoop (shared : Bool) (t : σ) : List α → Option (List CanFrame × σ)
  | [] => if shared || T.isConnected t then none else some ([], t)
  | a :: answers =>
      if shared || T.isConnected t then
        match (T.receive t a).1 with
        | .ok frame =>
            (receiveAllLoop true (T.receive t a).2 answers).map fun out => (frame :: out.1, out.2)
        | .error _ => receiveAllLoop false (T.receive t a).2 answers
      else some ([], t)

/-- `Motor::receive_all`: each frame goes to every motor of the list. -/
def receiveAll (motors : ℕ) (t : σ) (answers : List α) : Option (List CanFrame × σ) :=
  if motors = 0 then some ([], t) else T.receiveAllLoop false t answers

/-! ### Runs -/

/-- A call, with the answers of the system. -/
inductive Call (ω τ α : Type) where
  | connect (answer : ω)
  | transmit (frame : CanFrame) (answer : τ)
  | receive (answer : α)
  | disconnect

/-- What a call leaves. -/
def call (t : σ) : Call ω τ α → σ
  | .connect answer => (T.connect t answer).2
  | .transmit frame answer => (T.transmit t frame answer).2
  | .receive answer => (T.receive t answer).2
  | .disconnect => T.disconnect t

/-- What a run of calls leaves. -/
def run (t : σ) (calls : List (Call ω τ α)) : σ := calls.foldl T.call t

/-- A run of calls in two parts. -/
theorem run_append (t : σ) (calls calls' : List (Call ω τ α)) :
    T.run t (calls ++ calls') = T.run (T.run t calls) calls' := List.foldl_append

end ITransport

end Robstride
