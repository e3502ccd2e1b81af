import Mathlib.Data.Finset.Basic
import TarmIo.Net.Tcp.TcpClient

/-!
# `TcpServer.cpp` and `TcpConnectedClient.cpp`

A TCP server with its clients. A client is a number, and `clients` holds its members and what
libuv knows about its stream. What libuv answers is an argument of the event. Of libuv it is
used that every `uv_close` runs its callback once, that nothing is read from a stream after it,
and that no connection comes in on a listening handle after it. `uv_shutdown` succeeds.

Callbacks of the user are told apart by whether they are null; the end callbacks of the server
have numbers. As in `TcpClient` the handlers stop at a callback, and `running` says how the
handler goes on. The call of a null callback is counted and ends the function that makes it.
`Removable` only counts: a server is not destroyed here.
-/

namespace TarmIo.Net.Tcp

/-! ## `TcpConnectedClient` -/

/-- The members of `TcpConnectedClient::Impl`, and its stream: whether a peer name was obtained
for it, whether it is read from, its shutdown requests and calls of `uv_close` whose callbacks
are to run, and whether a close callback ran. -/
structure TcpConnectedClient where
  isOpen : Bool := false
  receiveCallback : Bool := false
  closeCallback : Bool := true
  dataOffset : UInt64 := 0
  accepted : Bool := false
  reading : Bool := false
  shutdowns : Nat := 0
  closes : Nat := 0
  closed : Bool := false
deriving DecidableEq

namespace TcpConnectedClient

def setEndpoint (k : TcpConnectedClient) : TcpConnectedClient :=
  { k with accepted := true, isOpen := true }

def uvClose (k : TcpConnectedClient) : TcpConnectedClient :=
  { k with closes := k.closes + 1, reading := false }

def shutdown (k : TcpConnectedClient) : TcpConnectedClient :=
  if k.isOpen then { k with isOpen := false, shutdowns := k.shutdowns + 1 } else k

def close (k : TcpConnectedClient) : TcpConnectedClient :=
  if k.isOpen then { k with isOpen := false }.uvClose else k

/-- `uv_tcp_close_reset` may refuse the stream, and its result is not looked at. -/
def closeWithReset (k : TcpConnectedClient) (accepted : Bool) : TcpConnectedClient :=
  if k.isOpen then
    if accepted then { k with isOpen := false }.uvClose else { k with isOpen := false }
  else k

def onShutdown (k : TcpConnectedClient) : TcpConnectedClient :=
  { k with shutdowns := k.shutdowns - 1 }.uvClose

end TcpConnectedClient

/-! ## `TcpServer` -/

/-- The handle a server listens on. `uv_is_closing` holds from the call of `uv_close` on. -/
inductive Listener
  | idle
  | listening
  | closing
  | closed
deriving DecidableEq

def Listener.isClosing : Listener → Bool
  | .idle | .listening => false
  | .closing | .closed => true

structure ListenArgs where
  endpointDefined : Bool := true
  newConnectionCallback : Bool := true
  dataReceiveCallback : Bool := true
  closeConnectionCallback : Bool := true
deriving DecidableEq

structure UvListen where
  init : Error := {}
  bind : Error := {}
  listen : Error := {}
deriving DecidableEq

/-- The status of a new connection, and the results of `uv_tcp_init`, `uv_accept`,
`uv_tcp_getpeername` and `uv_read_start` for it. -/
structure UvAccept where
  init : Error := {}
  status : Error := {}
  accept : Error := {}
  peerName : Error := {}
  readStart : Error := {}
deriving DecidableEq

namespace TcpServer

inductive Job
  | notConnected
  | onClose
  | ended (callback : Nat)
  | readFailed (i : Nat) (error : Error)
deriving DecidableEq

/-- A call of one of the user's callbacks. An end callback is shown the clients that are
connected. -/
inductive Call
  | newConnection (i : Nat) (error : Error)
  | receive (i : Nat) (offset size : UInt64)
  | closeConnection (i : Nat) (error : Error)
  | ended (callback : Nat) (error : Error) (connections : Finset Nat)
deriving DecidableEq

def Call.endCallback : Call → Option Nat
  | .ended callback _ _ => some callback
  | .newConnection .. | .receive .. | .closeConnection .. => none

/-- The callback that runs, and what its caller goes on with. -/
inductive Frame
  | last
  | withoutName (i : Nat)
  | accepted (i : Nat) (readStart : Error)
  | received (i : Nat) (size : UInt64)
  | readFailed (i : Nat)
deriving DecidableEq

end TcpServer

/-- The members of `TcpServer::Impl` with the callbacks it has scheduled and its clients; then
the callback that runs and the calls made so far, the end callbacks that were passed, the
clients that were removed, how often the object was handed to `Removable`, and how often a null
callback was called. -/
structure TcpServer where
  handle : Option Listener := none
  isOpen : Bool := false
  newConnectionCallback : Bool := false
  dataReceiveCallback : Bool := false
  closeConnectionCallback : Bool := false
  endServerCallback : Option Nat := none
  clientConnections : Finset Nat := ∅
  removalScheduled : Bool := false
  scheduled : List TcpServer.Job := []
  clients : Nat → TcpConnectedClient := fun _ => {}
  created : Nat := 0
  running : Option TcpServer.Frame := none
  calls : List TcpServer.Call := []
  passed : List Nat := []
  removed : List Nat := []
  removals : Nat := 0
  nullEndCalls : Nat := 0
  nullConnectionCalls : Nat := 0

namespace TcpServer

def onClient (s : TcpServer) (i : Nat) (f : TcpConnectedClient → TcpConnectedClient) :
    TcpServer :=
  { s with clients := Function.update s.clients i (f (s.clients i)) }

def schedule (s : TcpServer) (job : Job) : TcpServer := { s with scheduled := s.scheduled ++ [job] }

def log (s : TcpServer) (call : Call) : TcpServer := { s with calls := s.calls ++ [call] }

/-- `if (callback) callback(..)`, and then `next`. -/
def invoke (s : TcpServer) (callback : Bool) (call : Call) (frame : Frame)
    (next : TcpServer → TcpServer) : TcpServer :=
  if callback then { s.log call with running := some frame } else next s

/-- `callback(..)`, which is not checked. -/
def invokeUnchecked (s : TcpServer) (callback : Bool) (call : Call) (frame : Frame) : TcpServer :=
  s.invoke callback call frame fun s =>
    { s with nullConnectionCalls := s.nullConnectionCalls + 1 }

/-! ### The user's calls -/

def listen (s : TcpServer) (args : ListenArgs) (uv : UvListen) : TcpServer × Error :=
  if !args.endpointDefined then (s, .ofCode .invalidArgument)
  else if s.handle.isSome then (s, .ofCode .connectionAlreadyInProgress)
  else if uv.init.isError then ({ s with handle := some .idle }, uv.init)
  else if uv.bind.isError then ({ s with handle := some .idle }, uv.bind)
  else
    ({ s with
        handle := some (if uv.listen.isError then .idle else .listening)
        newConnectionCallback := args.newConnectionCallback
        dataReceiveCallback := args.dataReceiveCallback
        closeConnectionCallback := args.closeConnectionCallback
        isOpen := true },
      uv.listen)

/-- The scheduled callback reads `m_end_server_callback` only when it runs. -/
def scheduleNotConnected (s : TcpServer) : TcpServer :=
  if s.endServerCallback.isSome then s.schedule .notConnected else s

def closeImpl (s : TcpServer) : TcpServer :=
  match s.handle with
  | none => { s.scheduleNotConnected with isOpen := false }
  | some listener =>
      if listener.isClosing then { s.scheduleNotConnected with isOpen := false }
      else { s with handle := some .closing, isOpen := false }

/-- `shutdown` and `close` differ in what they do to the clients. -/
def endService (s : TcpServer) (f : TcpConnectedClient → TcpConnectedClient)
    (callback : Option Nat) : TcpServer :=
  { s with
    endServerCallback := callback
    clients := fun i => if i ∈ s.clientConnections then f (s.clients i) else s.clients i }.closeImpl

def shutdown (s : TcpServer) (callback : Option Nat) : TcpServer :=
  s.endService TcpConnectedClient.shutdown callback

def close (s : TcpServer) (callback : Option Nat) : TcpServer :=
  s.endService TcpConnectedClient.close callback

def scheduleRemoval (s : TcpServer) : TcpServer :=
  if s.removalScheduled = false ∧ s.handle.isSome = true then
    { s with removalScheduled := true }.close none
  else { s with removalScheduled := true, removals := s.removals + 1 }

/-! ### The handlers -/

/-- `start_read`. An error is reported from the loop, and the stream stays open. -/
def startRead (s : TcpServer) (i : Nat) (readStart : Error) : TcpServer :=
  if readStart.isError then
    (s.onClient i fun k => { k with receiveCallback := false }).schedule (.readFailed i readStart)
  else
    s.onClient i fun k => { k with receiveCallback := s.dataReceiveCallback, reading := true }

def finishAccept (s : TcpServer) (i : Nat) (readStart : Error) : TcpServer :=
  if (s.clients i).isOpen then s.startRead i readStart else s

/-- A client that has no peer name because its connection was reset already. -/
def reportReset (s : TcpServer) (i : Nat) : TcpServer :=
  s.invokeUnchecked s.closeConnectionCallback
    (.closeConnection i (.ofCode .connectionResetByPeer)) .last

def newClient (s : TcpServer) : TcpServer :=
  { s with created := s.created + 1, clients := Function.update s.clients s.created {} }

def insertClient (s : TcpServer) (i : Nat) : TcpServer :=
  { s.onClient i TcpConnectedClient.setEndpoint with
    clientConnections := insert i s.clientConnections }

def onNewConnection (s : TcpServer) (uv : UvAccept) : TcpServer :=
  if uv.init.isError then
    s.newClient.invoke s.newConnectionCallback (.newConnection s.created uv.init) .last id
  else if uv.status.isError then
    s.newClient.invoke s.newConnectionCallback (.newConnection s.created uv.status) .last id
  else if uv.accept.isError then
    s.newClient.invokeUnchecked s.newConnectionCallback (.newConnection s.created uv.accept) .last
  else if uv.peerName.code = .invalidArgument then
    s.newClient.invoke s.newConnectionCallback (.newConnection s.created {})
      (.withoutName s.created) id
  else if uv.peerName.isError then
    s.newClient.invoke s.newConnectionCallback (.newConnection s.created uv.peerName) .last id
  else
    (s.newClient.insertClient s.created).invoke s.newConnectionCallback
      (.newConnection s.created {}) (.accepted s.created uv.readStart)
      (finishAccept · s.created uv.readStart)

def advance (s : TcpServer) (i : Nat) (size : UInt64) : TcpServer :=
  s.onClient i fun k => { k with dataOffset := k.dataOffset + size }

/-- `on_read` with data. -/
def onData (s : TcpServer) (i : Nat) (size : UInt64) : TcpServer :=
  if size = 0 then s.advance i size
  else
    s.invoke (s.clients i).receiveCallback (.receive i (s.clients i).dataOffset size)
      (.received i size) (advance · i size)

/-- The close callback of a client calls that of the server. -/
def invokeClose (s : TcpServer) (i : Nat) (error : Error) (frame : Frame)
    (next : TcpServer → TcpServer) : TcpServer :=
  s.invoke ((s.clients i).closeCallback && s.closeConnectionCallback) (.closeConnection i error)
    frame next

def onReadError (s : TcpServer) (i : Nat) (error : Error) (frame : Frame)
    (next : TcpServer → TcpServer) : TcpServer :=
  s.invokeClose i (if error.code = .endOfFile then {} else error) frame next

def finishReadError (s : TcpServer) (i : Nat) : TcpServer :=
  s.onClient i fun k => { k with closeCallback := false }.close

def onFailure (s : TcpServer) (i : Nat) (error socketError : Error) : TcpServer :=
  s.onReadError i (TcpClient.reportedError error socketError) (.readFailed i) (finishReadError · i)

def removeClientConnection (s : TcpServer) (i : Nat) : TcpServer :=
  { s with clientConnections := s.clientConnections.erase i, removed := s.removed ++ [i] }

/-- `TcpConnectedClient::Impl::on_close`. -/
def onClientClose (s : TcpServer) (i : Nat) : TcpServer :=
  (s.removeClientConnection i).invokeClose i {} .last id

/-- `TcpServer::Impl::on_close`. A function that was moved from is empty. -/
def onClose (s : TcpServer) : TcpServer :=
  if s.clientConnections ≠ ∅ then s.schedule .onClose
  else
    match s.endServerCallback with
    | some callback =>
        { s.schedule (.ended callback) with endServerCallback := none, handle := none }
    | none =>
        { (if s.removalScheduled then s.scheduleRemoval else s) with handle := none }

def logEnd (s : TcpServer) (callback : Nat) (error : Error) : TcpServer :=
  { s.log (.ended callback error s.clientConnections) with running := some .last }

def runJob (s : TcpServer) : Job → TcpServer
  | .notConnected =>
      match s.endServerCallback with
      | none => { s with nullEndCalls := s.nullEndCalls + 1 }
      | some callback => s.logEnd callback (.ofCode .notConnected)
  | .onClose => s.onClose
  | .ended callback => s.logEnd callback {}
  | .readFailed i error => s.onReadError i error .last id

def resume (s : TcpServer) : Frame → TcpServer
  | .last => s
  | .withoutName i => s.reportReset i
  | .accepted i readStart => s.finishAccept i readStart
  | .received i size => s.advance i size
  | .readFailed i => s.finishReadError i

/-! ### Events -/

inductive UserCall
  | listen (args : ListenArgs) (uv : UvListen)
  | close (callback : Option Nat)
  | shutdown (callback : Option Nat)
  | scheduleRemoval
  | closeClient (i : Nat)
  | shutdownClient (i : Nat)
  | resetClient (i : Nat) (accepted : Bool)
deriving DecidableEq

/-- What the loop calls: a scheduled callback, or the callback of a handle. -/
inductive Completion
  | scheduled
  | closed
  | connection (uv : UvAccept)
  | data (i : Nat) (size : UInt64)
  | failure (i : Nat) (error socketError : Error)
  | shutdown (i : Nat)
  | clientClosed (i : Nat)
deriving DecidableEq

/-- The user may call between the loop's callbacks and in one of them, which `leave` ends. -/
inductive Event
  | call (user : UserCall)
  | leave
  | loop (completion : Completion)
deriving DecidableEq

def pass (s : TcpServer) (callback : Option Nat) : TcpServer :=
  { s with passed := s.passed ++ callback.toList }

def apply (s : TcpServer) : UserCall → TcpServer
  | .listen args uv => (s.listen args uv).1
  | .close callback => (s.pass callback).close callback
  | .shutdown callback => (s.pass callback).shutdown callback
  | .scheduleRemoval => s.scheduleRemoval
  | .closeClient i => s.onClient i TcpConnectedClient.close
  | .shutdownClient i => s.onClient i TcpConnectedClient.shutdown
  | .resetClient i accepted => s.onClient i fun k => k.closeWithReset accepted

/-- The handler of a completion, when libuv can report it. -/
def handleCompletion (s : TcpServer) : Completion → Option TcpServer
  | .scheduled =>
      match s.scheduled with
      | [] => none
      | job :: rest => some ({ s with scheduled := rest }.runJob job)
  | .closed =>
      if s.handle = some .closing then some { s with handle := some .closed }.onClose else none
  | .connection uv => if s.handle = some .listening then some (s.onNewConnection uv) else none
  | .data i size => if (s.clients i).reading then some (s.onData i size) else none
  | .failure i error socketError =>
      if (s.clients i).reading = true ∧ error.isError = true then
        some ((s.onClient i fun k => { k with reading := false }).onFailure i error socketError)
      else none
  | .shutdown i =>
      if 0 < (s.clients i).shutdowns then some (s.onClient i TcpConnectedClient.onShutdown)
      else none
  | .clientClosed i =>
      if 0 < (s.clients i).closes ∧ (s.clients i).shutdowns = 0 then
        some ((s.onClient i fun k =>
          { k with closes := k.closes - 1, closed := true }).onClientClose i)
      else none

def step (s : TcpServer) : Event → Option TcpServer
  | .call user => some (s.apply user)
  | .leave =>
      match s.running with
      | none => none
      | some frame => some ({ s with running := none }.resume frame)
  | .loop completion => if s.running = none then s.handleCompletion completion else none

end TcpServer

end TarmIo.Net.Tcp
