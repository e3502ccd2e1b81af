import Mathlib.Logic.Function.Basic
import TarmIo.Foundation.Execution
import TarmIo.StatusCode

/-!
# `TcpClient.cpp`

The connections of a TCP client. A stream handle is a number, and `streams` says what libuv
knows about each: which of its requests are pending, whether it is read from, and whether it
was passed to `uv_close`. What libuv answers is an argument of the event: the result of a
call, the status of a completion. Of libuv it is used that requests of a closing stream
complete as cancelled before its close callback, and that nothing is read from it any more.

The handlers stop at a callback in which the user acts; `running` says which one it is and
with it what the handler does when the callback returns. Operations through a null
`m_tcp_stream` are counted and end the function that makes them. The completion of a connect
request that the client has freed in the meantime is undefined, and the model has no step
for it.
-/

namespace TarmIo.Net.Tcp

/-- A callback as it is passed to `connect`: none, one that does nothing, or one in which the
user calls the client. -/
inductive Callback
  | null
  | silent
  | user
deriving DecidableEq

structure ConnectArgs where
  endpointDefined : Bool := true
  connectCallback : Callback := .null
  receiveCallback : Callback := .null
  closeCallback : Callback := .null
deriving DecidableEq

structure UvConnect where
  init : Error := {}
  connect : Error := {}
deriving DecidableEq

/-- A `uv_tcp_t`. `owned` says that its `data` points to the client, `bytesBefore` what
`m_data_offset` was when the handle was made. -/
structure Stream where
  owned : Bool := true
  connecting : Bool := false
  connected : Bool := false
  reading : Bool := false
  shutdowns : Nat := 0
  closing : Bool := false
  closed : Bool := false
  bytesBefore : UInt64 := 0
deriving DecidableEq

inductive Call
  | connect (error : Error)
  | receive (stream : Nat) (offset size : UInt64)
  | close (error : Error)
deriving DecidableEq

/-- The callback that runs, and what its caller goes on with. -/
inductive Frame
  | connectFailed
  | connected (i : Nat) (readStart : Error)
  | connectReset (i : Nat) (status readStart : Error)
  | connectResetClosed (i : Nat) (readStart : Error)
  | readStartFailed
  | received (i : Nat) (size : UInt64)
  | readFailed (oldTcpStream : Nat)
  | shutdownFailed (i : Nat)
  | closed
deriving DecidableEq

/-- The members of `TcpClient::Impl` with the callbacks it has scheduled and its handles; then
the callback that runs, the calls made so far, and the operations on a null stream or writes to
a closing one. `connectReq` is the stream whose request `m_connect_req` is: any other request
has been freed. -/
structure TcpClient where
  tcpStream : Option Nat := none
  isOpen : Bool := false
  connectReq : Option Nat := none
  connectCallback : Callback := .null
  receiveCallback : Callback := .null
  closeCallback : Callback := .null
  dataOffset : UInt64 := 0
  scheduled : List ConnectArgs := []
  streams : Nat → Stream := fun _ => {}
  created : Nat := 0
  running : Option Frame := none
  calls : List Call := []
  nullOperations : Nat := 0
  closingWrites : Nat := 0

namespace TcpClient

def onStream (c : TcpClient) (i : Nat) (f : Stream → Stream) : TcpClient :=
  { c with streams := Function.update c.streams i (f (c.streams i)) }

def nullOperation (c : TcpClient) : TcpClient :=
  { c with nullOperations := c.nullOperations + 1 }

def uvClose (c : TcpClient) (i : Nat) : TcpClient :=
  c.onStream i fun h => { h with closing := true, reading := false }

def log (c : TcpClient) (call : Call) : TcpClient := { c with calls := c.calls ++ [call] }

/-- `if (callback) callback(..)`, and then `next`. -/
def invoke (c : TcpClient) (callback : Callback) (call : Call) (frame : Frame)
    (next : TcpClient → TcpClient) : TcpClient :=
  match callback with
  | .null => next c
  | .silent => next (c.log call)
  | .user => { c.log call with running := some frame }

/-! ## The user's calls -/

variable {c : TcpClient}

/-- `connect` up to the callback that it schedules. -/
def tearDown (c : TcpClient) : TcpClient :=
  match c.tcpStream with
  | none => c
  | some i => { (c.onStream i fun h => { h with owned := false }).uvClose i with tcpStream := none }

@[simp] theorem tearDown_isOpen (c : TcpClient) : c.tearDown.isOpen = c.isOpen := by
  unfold tearDown
  split <;> rfl

@[simp] theorem tearDown_tcpStream (c : TcpClient) : c.tearDown.tcpStream = none := by
  unfold tearDown
  split
  · assumption
  · rfl

def connect (c : TcpClient) (args : ConnectArgs) : TcpClient :=
  { c.tearDown with scheduled := c.scheduled ++ [args] }

def shutdown (c : TcpClient) (accepted : Bool) : TcpClient :=
  if c.isOpen then
    match c.tcpStream with
    | none => c.nullOperation
    | some i =>
        if accepted then c.onStream i fun h => { h with shutdowns := h.shutdowns + 1 } else c
  else c

/-- `close` and `close_with_reset` differ in the function that they hand the stream to; only
`uv_tcp_close_reset` can refuse it. -/
def closeStream (c : TcpClient) (accepted : Bool) : TcpClient :=
  match c.tcpStream with
  | none => { c with isOpen := false }
  | some i =>
      if (c.streams i).closing then { c with isOpen := false }
      else if accepted then { c.uvClose i with isOpen := false, tcpStream := none }
      else { c with isOpen := false, tcpStream := none }

theorem closeStream_none (hstream : c.tcpStream = none) (accepted : Bool) :
    c.closeStream accepted = { c with isOpen := false } := by
  unfold closeStream
  split
  · rfl
  · simp_all

theorem closeStream_some {i : Nat} (hstream : c.tcpStream = some i)
    (hopen : (c.streams i).closing = false) (accepted : Bool) :
    c.closeStream accepted =
      { (if accepted then c.uvClose i else c) with isOpen := false, tcpStream := none } := by
  unfold closeStream
  split
  · simp_all
  · rename_i j hj
    obtain rfl : i = j := Option.some.inj (hstream.symm.trans hj)
    rw [hopen, if_neg Bool.false_ne_true]
    cases accepted <;> rfl

def close (c : TcpClient) : TcpClient := c.closeStream true

def closeWithReset (c : TcpClient) (accepted : Bool) : TcpClient := c.closeStream accepted

/-- The use that `send_data_impl` makes of the stream; what it writes is in `TcpSend`. -/
def sendData (c : TcpClient) (buffer : Option (List UInt8)) (size : UInt32) : TcpClient :=
  if !c.isOpen then c
  else if size = 0 ∨ buffer = none then c
  else
    match c.tcpStream with
    | none => c.nullOperation
    | some i =>
        if (c.streams i).closing then { c with closingWrites := c.closingWrites + 1 } else c

/-! ## The handlers -/

def initStream (c : TcpClient) : TcpClient :=
  { c with
    tcpStream := some c.created
    created := c.created + 1
    streams := Function.update c.streams c.created { bytesBefore := c.dataOffset } }

def setCallbacks (c : TcpClient) (args : ConnectArgs) : TcpClient :=
  { c with
    connectCallback := args.connectCallback
    receiveCallback := args.receiveCallback
    closeCallback := args.closeCallback }

/-- `m_connect_req.reset(..)`, which frees the request before. -/
def resetConnectReq (c : TcpClient) (request : Option Nat) : TcpClient :=
  { c with connectReq := request }

def connectImpl (c : TcpClient) (args : ConnectArgs) (uv : UvConnect) : TcpClient :=
  if !args.endpointDefined then
    c.invoke args.connectCallback (.connect (.ofCode .invalidArgument)) .connectFailed id
  else if uv.init.isError then
    c.initStream.invoke args.connectCallback (.connect (.ofCode .invalidArgument))
      .connectFailed id
  else if uv.connect.isError then
    ((c.initStream.resetConnectReq (some c.created)).setCallbacks args).invoke args.connectCallback
      (.connect uv.connect) .connectFailed id
  else
    ((c.initStream.resetConnectReq (some c.created)).setCallbacks args).onStream c.created
      fun h => { h with connecting := true }

def onReadError (c : TcpClient) (error : Error) (frame : Frame) (next : TcpClient → TcpClient) :
    TcpClient :=
  c.invoke c.closeCallback (.close (if error.code = .endOfFile then {} else error)) frame next

/-- The end of `on_connect`. `uv_read_start` refuses a closing stream. -/
def startRead (c : TcpClient) (i : Nat) (readStart : Error) : TcpClient :=
  if !c.isOpen then c
  else if (c.streams i).closing then
    c.onReadError (.ofCode .invalidArgument) .readStartFailed id
  else if readStart.isError then c.onReadError readStart .readStartFailed id
  else c.onStream i fun h => { h with reading := true }

/-- `on_connect` after the connect callback, when the peer has reset the connection. -/
def afterResetClose (c : TcpClient) (i : Nat) (readStart : Error) : TcpClient :=
  { c with closeCallback := .null }.startRead i readStart

def afterReset (c : TcpClient) (i : Nat) (status readStart : Error) : TcpClient :=
  c.invoke c.closeCallback (.close status) (.connectResetClosed i readStart)
    (afterResetClose · i readStart)

/-- The request is over, and `m_is_open` is set. -/
def finishConnect (c : TcpClient) (i : Nat) (status : Error) : TcpClient :=
  { c.onStream i fun h => { h with connecting := false, connected := !status.isError } with
    isOpen := !status.isError }

/-- In case of an error the other callbacks are not called. -/
def dropCallbacks (c : TcpClient) (status : Error) : TcpClient :=
  { c with
    receiveCallback := if status.isError then .null else c.receiveCallback
    closeCallback := if status.isError then .null else c.closeCallback }

def onConnect (c : TcpClient) (i : Nat) (status readStart : Error) : TcpClient :=
  if status.code = .connectionResetByPeer then
    (c.finishConnect i status).invoke c.connectCallback (.connect {})
      (.connectReset i status readStart) (afterReset · i status readStart)
  else
    ((c.finishConnect i status).dropCallbacks status).invoke c.connectCallback (.connect status)
      (.connected i readStart) (startRead · i readStart)

def advance (c : TcpClient) (size : UInt64) : TcpClient :=
  { c with dataOffset := c.dataOffset + size }

/-- `on_read` with data. -/
def onData (c : TcpClient) (i : Nat) (size : UInt64) : TcpClient :=
  if size = 0 then c.advance size
  else
    c.invoke c.receiveCallback (.receive i c.dataOffset size) (.received i size)
      (advance · size)

/-- On Linux the end of the file may hide a reset, which the socket then reports. -/
def reportedError (error socketError : Error) : Error :=
  if error.code = .endOfFile ∧ socketError.code = .connectionResetByPeer then socketError
  else error

/-- The stream leaves the client before the close callback, in which the user may connect
again. -/
def disown (c : TcpClient) (old : Nat) : TcpClient :=
  { c.onStream old fun h => { h with owned := false } with isOpen := false, tcpStream := none }

/-- `on_read` with an error. At the end of the file it asks `m_tcp_stream` for the socket's
error first. -/
def onFailure (c : TcpClient) (error socketError : Error) : TcpClient :=
  match c.tcpStream with
  | none =>
      if error.code = .endOfFile then c.nullOperation
      else if c.closeCallback = .null then c
      else { c with isOpen := false }.nullOperation
  | some old =>
      if c.closeCallback = .null then c
      else
        (c.disown old).onReadError (reportedError error socketError) (.readFailed old)
          (uvClose · old)

theorem onFailure_none (hstream : c.tcpStream = none) (hcallback : c.closeCallback ≠ .null)
    (hopen : c.isOpen = false) (error socketError : Error) :
    c.onFailure error socketError = c.nullOperation := by
  unfold onFailure
  split
  · split
    · rfl
    · simp [nullOperation, hopen]
  · simp_all

theorem onFailure_some {old : Nat} (hstream : c.tcpStream = some old)
    (hcallback : c.closeCallback ≠ .null) (error socketError : Error) :
    c.onFailure error socketError =
      (c.disown old).onReadError (reportedError error socketError) (.readFailed old)
        (uvClose · old) := by
  unfold onFailure
  split
  · simp_all
  · rename_i i hi
    obtain rfl : old = i := Option.some.inj (hstream.symm.trans hi)
    rw [if_neg hcallback]

def finishShutdown (c : TcpClient) (i : Nat) : TcpClient :=
  match c.tcpStream with
  | none => { c with isOpen := false }.nullOperation
  | some j =>
      if (c.streams j).closing then { c with isOpen := false }
      else { c.uvClose i with isOpen := false, tcpStream := none }

theorem finishShutdown_none (hstream : c.tcpStream = none) (i : Nat) :
    c.finishShutdown i = { c with isOpen := false }.nullOperation := by
  unfold finishShutdown
  split
  · rfl
  · simp_all

theorem finishShutdown_some {j : Nat} (hstream : c.tcpStream = some j)
    (hopen : (c.streams j).closing = false) (i : Nat) :
    c.finishShutdown i = { c.uvClose i with isOpen := false, tcpStream := none } := by
  unfold finishShutdown
  split
  · simp_all
  · rename_i k hk
    obtain rfl : j = k := Option.some.inj (hstream.symm.trans hk)
    rw [hopen, if_neg Bool.false_ne_true]

def onShutdown (c : TcpClient) (i : Nat) (status : Error) : TcpClient :=
  if status.isError then
    c.invoke c.closeCallback (.close status) (.shutdownFailed i) (finishShutdown · i)
  else c.finishShutdown i

def onClose (c : TcpClient) (i : Nat) : TcpClient :=
  if (c.streams i).owned then c.invoke c.closeCallback (.close {}) .closed id else c

def resume (c : TcpClient) : Frame → TcpClient
  | .connectFailed | .readStartFailed | .closed => c
  | .connected i readStart => c.startRead i readStart
  | .connectReset i status readStart => c.afterReset i status readStart
  | .connectResetClosed i readStart => c.afterResetClose i readStart
  | .received _ size => c.advance size
  | .readFailed old => c.uvClose old
  | .shutdownFailed i => c.finishShutdown i

/-! ## Events -/

inductive UserCall
  | connect (args : ConnectArgs)
  | close
  | closeWithReset (accepted : Bool)
  | shutdown (accepted : Bool)
  | sendData (buffer : Option (List UInt8)) (size : UInt32)
deriving DecidableEq

/-- What the loop calls: a scheduled `connect_impl`, or the callback of a request. -/
inductive Completion
  | scheduled (uv : UvConnect)
  | connected (i : Nat) (status readStart : Error)
  | data (i : Nat) (size : UInt64)
  | failure (i : Nat) (error socketError : Error)
  | shutdown (i : Nat) (status : Error)
  | closed (i : Nat)
deriving DecidableEq

/-- The user may call between the loop's callbacks and in one of them, which `leave` ends. -/
inductive Event
  | call (user : UserCall)
  | leave
  | loop (completion : Completion)
deriving DecidableEq

def apply (c : TcpClient) : UserCall → TcpClient
  | .connect args => c.connect args
  | .close => c.close
  | .closeWithReset accepted => c.closeWithReset accepted
  | .shutdown accepted => c.shutdown accepted
  | .sendData buffer size => c.sendData buffer size

/-- A request of a closing stream completes as cancelled. -/
def CompletesWith (h : Stream) (status : Error) : Prop :=
  h.closing = true → status.code = .operationCanceled

instance (h : Stream) (status : Error) : Decidable (CompletesWith h status) :=
  inferInstanceAs (Decidable (_ → _))

/-- The handler of a completion, when libuv can report it. `on_read` begins with
`m_connect_req.reset()`. -/
def handle (c : TcpClient) : Completion → Option TcpClient
  | .scheduled uv =>
      match c.scheduled with
      | [] => none
      | args :: rest => some ({ c with scheduled := rest }.connectImpl args uv)
  | .connected i status readStart =>
      if c.connectReq = some i ∧ (c.streams i).connecting = true ∧
          CompletesWith (c.streams i) status then
        some (c.onConnect i status readStart)
      else none
  | .data i size =>
      if (c.streams i).reading then some ((c.resetConnectReq none).onData i size) else none
  | .failure i error socketError =>
      if (c.streams i).reading = true ∧ error.isError = true then
        some (((c.resetConnectReq none).onStream i fun h => { h with reading := false }).onFailure
          error socketError)
      else none
  | .shutdown i status =>
      if 0 < (c.streams i).shutdowns ∧ CompletesWith (c.streams i) status then
        some ((c.onStream i fun h => { h with shutdowns := h.shutdowns - 1 }).onShutdown i status)
      else none
  | .closed i =>
      if (c.streams i).closing = true ∧ (c.streams i).closed = false ∧
          (c.streams i).connecting = false ∧ (c.streams i).shutdowns = 0 then
        some ((c.onStream i fun h => { h with closed := true }).onClose i)
      else none

def step (c : TcpClient) : Event → Option TcpClient
  | .call user => some (c.apply user)
  | .leave =>
      match c.running with
      | none => none
      | some frame => some ({ c with running := none }.resume frame)
  | .loop completion => if c.running = none then c.handle completion else none

/-- A first connect with the callbacks `args`, up to the established connection. -/
def connecting (args : ConnectArgs) : List Event :=
  [.call (.connect args), .loop (.scheduled {}), .loop (.connected 0 {} {})]

end TcpClient

end TarmIo.Net.Tcp
