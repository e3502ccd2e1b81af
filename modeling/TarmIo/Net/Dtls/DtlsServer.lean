import TarmIo.Net.Tls.Handshake
import TarmIo.Net.Udp.UdpServer

/-!
# `DtlsServer.cpp` and `DtlsConnectedClient.cpp`

The server on top of `UdpServer`, whose callbacks it implements, with the clients it has made: one
for each `UdpPeer`, by which a client is known here. What OpenSSL answers is an argument of each
event. A handler stops where it calls OpenSSL or a callback of the user, and `stack` says what is
left to do there, the innermost call first; the loop goes on when the stack is empty. The user may
call the server and its clients at any time.

The callbacks passed to `listen` are not null: of a null one only the call is missing. `listen`
was called once, with success or not. A failed receive, and a peer that times out before it is
announced, have no client: the source goes through a null pointer, and the machine stops. Payloads,
the callback of `DtlsServer::close` and `schedule_removal` are left out.
-/

namespace TarmIo.Net

open Tls (HandshakeState HandshakeResult opensslError invalidDataError)

namespace Dtls

inductive SendCallback
  | handshake
  | finishing (readPending : Bool)
  | ignored
  | shutdown
  | data
deriving DecidableEq

/-- What `SSL_shutdown` does: its error if it is negative, whether `SSL_SENT_SHUTDOWN` is set after
it, and whether the write BIO has data then. `send` is the error with which libuv refuses the
send. -/
structure ShutdownCall where
  failure : Option (Option String) := none
  sent : Bool := true
  writePending : Bool := true
  send : Error := {}

structure HandshakeCall where
  result : HandshakeResult
  writePending : Bool := true
  readPending : Bool := false
  send : Error := {}

inductive ReadResult
  | data
  | dry
  | error (reason : Option String)
deriving DecidableEq

/-- How `SSL_write` ends: with an error, with no output, or with a send. -/
inductive WriteResult
  | failed (reason : Option String)
  | nothing
  | written (send : Error)

/-- The answers that a callback of `UdpServer` may need: the error of `init_ssl`, whether
`BIO_write` takes the packet, and that of `SSL_shutdown`. -/
structure Answers where
  init : Error := {}
  written : Bool := true
  shutdown : ShutdownCall := {}

/-- What is left to do when the user's callback returns, or where OpenSSL is called. -/
inductive StackFrame (ι : Type*)
  | closePeer (p : UdpPeer ι)
  | removeClient (p : UdpPeer ι)
  | unref (p : UdpPeer ι)
  | closing (clients : List (UdpPeer ι))
  | handshaking (p : UdpPeer ι)
  | reading (p : UdpPeer ι)
deriving DecidableEq

inductive Call (ι : Type*)
  | newConnection (p : UdpPeer ι) (error : Error)
  | dataReceived (p : UdpPeer ι) (error : Error)
  | closed (p : UdpPeer ι) (error : Error)
  | sent (p : UdpPeer ι) (error : Error)
deriving DecidableEq

end Dtls

/-- A client and its `UdpPeer`: whether the peer was closed, whether a shared pointer to it is left,
its reference count, the accepted sends, and how many removals are scheduled. -/
structure DtlsConnectedClient where
  handshakeState : HandshakeState := .none
  sslInited : Bool := true
  sentShutdown : Bool := false
  peerClosed : Bool := false
  shared : Bool := true
  refCounter : Nat := 1
  sends : List Dtls.SendCallback := []
  removals : Nat := 0
  deleted : Bool := false
deriving DecidableEq

namespace DtlsConnectedClient

def ref (c : DtlsConnectedClient) : DtlsConnectedClient :=
  { c with refCounter := c.refCounter + 1 }

def unref (c : DtlsConnectedClient) : DtlsConnectedClient :=
  match c.refCounter with
  | 0 => c
  | 1 => { c with refCounter := 0, removals := c.removals + 1 }
  | n + 2 => { c with refCounter := n + 1 }

def release (c : DtlsConnectedClient) : DtlsConnectedClient := { c with shared := false }.unref

end DtlsConnectedClient

/-- The UDP server, `m_clients` and the clients that were made; then what is only observed: the
calls made so far, and whether `close` went through a pointer to a deleted client. -/
structure DtlsServer (ι : Type*) where
  udp : UdpServer ι
  clients : List (UdpPeer ι) := []
  made : UdpPeer ι → Option DtlsConnectedClient := fun _ => none
  stack : List (Dtls.StackFrame ι) := []
  calls : List (Dtls.Call ι) := []
  touchedDeleted : Bool := false

namespace DtlsServer

open Dtls

variable {ι : Type*}

def listen (ι : Type*) (args : TrackingArgs) : DtlsServer ι where
  udp := UdpServer.started ι { args with hasNewPeerCallback := true, hasDataCallback := true }

def log (s : DtlsServer ι) (call : Call ι) : DtlsServer ι := { s with calls := s.calls ++ [call] }

def push (s : DtlsServer ι) (frame : StackFrame ι) : DtlsServer ι :=
  { s with stack := frame :: s.stack }

def connectedClientsCount (s : DtlsServer ι) : Nat := s.clients.length

variable [DecidableEq ι]

def onClient (s : DtlsServer ι) (p : UdpPeer ι)
    (f : DtlsConnectedClient → DtlsConnectedClient) : DtlsServer ι :=
  { s with made := Function.update s.made p ((s.made p).map f) }

def owned (u : UdpServer ι) (p : UdpPeer ι) : Bool :=
  decide (u.peers p.id = some p) ||
    u.peersBacklog.any fun r =>
      decide (p ∈ r.backlog.items.flatten) || r.walk.any fun w => decide (p ∈ w.kept)

/-- The UDP server moves on, and the peers that it has let go lose a reference. -/
def withUdp (s : DtlsServer ι) (u : UdpServer ι) : DtlsServer ι :=
  { s with
    udp := u
    made := fun p => (s.made p).map fun c =>
      if c.shared && !owned u p then c.release else c }

def isOpen (s : DtlsServer ι) (p : UdpPeer ι) : Bool :=
  (s.made p).any fun c =>
    !c.peerClosed && !s.udp.handle.closing && decide (c.handshakeState = .finished)

def isDeleted (s : DtlsServer ι) (p : UdpPeer ι) : Bool := (s.made p).any fun c => c.deleted

def removeClient (s : DtlsServer ι) (p : UdpPeer ι) : DtlsServer ι :=
  { s with clients := s.clients.filter fun q => decide (q ≠ p) }

def report (s : DtlsServer ι) (p : UdpPeer ι) (error : Error) : DtlsServer ι :=
  s.log (.closed p error)

def addSend (s : DtlsServer ι) (p : UdpPeer ι) (callback : SendCallback) : DtlsServer ι :=
  s.onClient p fun c => { c.ref with sends := c.sends ++ [callback] }

/-! ## Closing a client -/

def closePeer (s : DtlsServer ι) (p : UdpPeer ι) : Option (DtlsServer ι) :=
  (s.udp.closePeer p).map fun u => (s.withUdp u).onClient p fun c => { c with peerClosed := true }

/-- `DtlsConnectedClient::close`. When libuv refuses the send, its callback runs at once, before the
client is removed. -/
def close (s : DtlsServer ι) (p : UdpPeer ι) (call : ShutdownCall) : DtlsServer ι :=
  if !s.isOpen p then s
  else
    let s := s.onClient p fun c => { c with sentShutdown := c.sentShutdown || call.sent }
    match call.failure with
    | some reason => (s.removeClient p).report p (opensslError reason)
    | none =>
        if !call.writePending then s.removeClient p
        else if call.send.isError then
          ((s.report p {}).push (.removeClient p)).push (.closePeer p)
        else (s.addSend p .shutdown).removeClient p

def closeNotify : Nat := 0

def onAlert (s : DtlsServer ι) (p : UdpPeer ι) (code : Nat) : DtlsServer ι :=
  if code = closeNotify then (s.removeClient p).report p {} else s

/-- The info callback for an alert; `ret` has the level and the code. -/
def sslStateCallback (s : DtlsServer ι) (p : UdpPeer ι) (ret : Nat) : DtlsServer ι :=
  if (s.made p).any fun c => c.sentShutdown then s else s.onAlert p (ret % 256)

/-! ## The handshake -/

def onHandshakeFailed (s : DtlsServer ι) (p : UdpPeer ι) (error : Error) : DtlsServer ι :=
  s.log (.newConnection p error)

def finishHandshake (s : DtlsServer ι) (p : UdpPeer ι) : DtlsServer ι :=
  (s.onClient p fun c => { c with handshakeState := .finished }).log (.newConnection p {})

def finishAndRead (s : DtlsServer ι) (p : UdpPeer ι) (readPending : Bool) : DtlsServer ι :=
  if readPending then (s.finishHandshake p).push (.reading p) else s.finishHandshake p

/-- The callbacks of `send_data` of the peer. -/
def runSendCallback (s : DtlsServer ι) (p : UdpPeer ι) (callback : SendCallback) (error : Error) :
    DtlsServer ι :=
  match callback with
  | .handshake => if error.isError then s.onHandshakeFailed p error else s
  | .finishing readPending =>
      if error.isError then s.onHandshakeFailed p error else s.finishAndRead p readPending
  | .ignored => s
  | .shutdown => (s.report p {}).push (.closePeer p)
  | .data => s.log (.sent p error)

/-- `internal_read_from_sll_and_send` with something to send. -/
def sendHandshake (s : DtlsServer ι) (p : UdpPeer ι) (callback : SendCallback) (send : Error) :
    DtlsServer ι :=
  if send.isError then s.runSendCallback p callback send else s.addSend p callback

def afterSslDoHandshake (s : DtlsServer ι) (p : UdpPeer ι) (call : HandshakeCall) :
    DtlsServer ι :=
  match call.result with
  | .wantRead =>
      if !call.writePending then s.onHandshakeFailed p invalidDataError
      else s.sendHandshake p .handshake call.send
  | .wantWrite => s
  | .error reason =>
      (if call.writePending then s.sendHandshake p .ignored call.send else s).onHandshakeFailed p
        (opensslError reason)
  | .done =>
      if call.writePending then
        (s.onClient p fun c => { c with handshakeState := .finishing }).sendHandshake p
          (.finishing call.readPending) call.send
      else s.finishAndRead p call.readPending
  | .shutDown reason => s.onHandshakeFailed p (opensslError reason)

/-! ## The callbacks of the UDP server -/

def onNewPeer (s : DtlsServer ι) (p : UdpPeer ι) (init : Error) : DtlsServer ι :=
  let s :=
    { s with
      made := Function.update s.made p (some { sslInited := !init.isError })
      clients := s.clients ++ [p] }
  if init.isError then s.log (.newConnection p init) else s

/-- `on_data_receive`, up to the call of `SSL_read` or `SSL_do_handshake`. -/
def onDataReceive (s : DtlsServer ι) (p : UdpPeer ι) (written : Bool) : Option (DtlsServer ι) :=
  match s.made p with
  | none => none
  | some c =>
      if c.handshakeState = .finished then some (if written then s.push (.reading p) else s)
      else if !(written && c.sslInited) then some (s.onHandshakeFailed p invalidDataError)
      else if c.handshakeState = .finishing then some s
      else some (s.push (.handshaking p))

def onTimeout (s : DtlsServer ι) (p : UdpPeer ι) (call : ShutdownCall) : Option (DtlsServer ι) :=
  match s.made p with
  | none => none
  | some _ => some (s.close p call)

def entered (s : DtlsServer ι) (answers : Answers) : Option (DtlsServer ι) :=
  match s.udp.running with
  | .idle => some s
  | .newPeer p => some (s.onNewPeer p answers.init)
  | .data p => s.onDataReceive p answers.written
  | .timeout p _ | .timeoutInAdd p _ => s.onTimeout p answers.shutdown

/-! ## The machine -/

/-- The user's calls, what the loop runs, what OpenSSL does in the functions that are called, and
the return from a callback. `order` is that of the set of clients. -/
inductive Event (ι : Type*)
  | close (p : UdpPeer ι) (call : ShutdownCall)
  | serverClose (order : List (UdpPeer ι))
  | send (p : UdpPeer ι) (result : WriteResult)
  | datagram (id : ι) (addedAt : UInt64) (answers : Answers)
  | onTimer (index : Nat)
  | visit (answers : Answers)
  | inactivityOver (id : ι)
  | advance (clock : UInt64)
  | sendDone (p : UdpPeer ι) (callback : SendCallback) (status : Error)
  | removal (p : UdpPeer ι)
  | serverClosed
  | handshake (call : HandshakeCall)
  | read (result : ReadResult)
  | alert (ret : Nat)
  | leave (answers : Answers)

def AtRest (s : DtlsServer ι) : Prop := s.stack = [] ∧ s.udp.BetweenCallbacks

instance (s : DtlsServer ι) : Decidable s.AtRest :=
  inferInstanceAs (Decidable (_ ∧ _))

def sendData (s : DtlsServer ι) (p : UdpPeer ι) (result : WriteResult) : DtlsServer ι :=
  if !s.isOpen p then s.log (.sent p (.ofCode .notConnected))
  else
    match result with
    | .failed reason => s.log (.sent p (opensslError reason))
    | .nothing => s.log (.sent p (opensslError (some "Nothing to read from SSL")))
    | .written send => if send.isError then s.log (.sent p send) else s.addSend p .data

def udpStep (s : DtlsServer ι) (e : UdpServer.Event ι) (answers : Answers) :
    Option (DtlsServer ι) :=
  if s.stack = [] then (s.udp.step e).bind fun u => (s.withUdp u).entered answers else none

/-- The completion of a send of the peer, up to the return of its callback. -/
def onSend (s : DtlsServer ι) (p : UdpPeer ι) (callback : SendCallback) (status : Error) :
    DtlsServer ι :=
  ((s.onClient p fun c => { c with sends := c.sends.erase callback }).push
    (.unref p)).runSendCallback p callback status

def hasSend (s : DtlsServer ι) (p : UdpPeer ι) (callback : SendCallback) : Bool :=
  (s.made p).any fun c => decide (callback ∈ c.sends)

def onRemoval (s : DtlsServer ι) (p : UdpPeer ι) : DtlsServer ι :=
  s.onClient p fun c => { c with removals := c.removals - 1, deleted := true }

def closeNext (s : DtlsServer ι) (p : UdpPeer ι) (call : ShutdownCall) : DtlsServer ι :=
  { s with touchedDeleted := s.touchedDeleted || s.isDeleted p }.close p call

def onRead (s : DtlsServer ι) (p : UdpPeer ι) (rest : List (StackFrame ι)) :
    ReadResult → DtlsServer ι
  | .data => s.log (.dataReceived p {})
  | .dry => { s with stack := rest }
  | .error reason => { s with stack := rest }.log (.dataReceived p (opensslError reason))

def resume (s : DtlsServer ι) (answers : Answers) : Option (DtlsServer ι) :=
  match s.stack with
  | [] =>
      if s.udp.running = .idle then none
      else (s.udp.step .leave).bind fun u => (s.withUdp u).entered answers
  | .closePeer p :: rest => { s with stack := rest }.closePeer p
  | .removeClient p :: rest => some ({ s with stack := rest }.removeClient p)
  | .unref p :: rest => some ({ s with stack := rest }.onClient p fun c => c.unref)
  | .closing (p :: ps) :: rest =>
      some ({ s with stack := .closing ps :: rest }.closeNext p answers.shutdown)
  | .closing [] :: rest => some { s with stack := rest, udp := s.udp.close (some []) }
  | .handshaking _ :: _ | .reading _ :: _ => none

def step (s : DtlsServer ι) : Event ι → Option (DtlsServer ι)
  | .close p call => if s.made p ≠ none ∧ s.isDeleted p = false then some (s.close p call) else none
  | .serverClose order =>
      if order.isPerm s.clients then some ({ s with clients := [] }.push (.closing order)) else none
  | .send p result =>
      if s.made p ≠ none ∧ s.isDeleted p = false then some (s.sendData p result) else none
  | .datagram id addedAt answers => s.udpStep (.datagram id addedAt) answers
  | .onTimer index => s.udpStep (.onTimer index) {}
  | .visit answers => s.udpStep .visit answers
  | .inactivityOver id => s.udpStep (.inactivityOver id) {}
  | .advance clock => (s.udp.step (.advance clock)).map s.withUdp
  | .sendDone p callback status =>
      if s.AtRest ∧ s.hasSend p callback then some (s.onSend p callback status) else none
  | .removal p =>
      if s.AtRest ∧ ((s.made p).any fun c => decide (0 < c.removals)) then some (s.onRemoval p)
      else none
  | .serverClosed =>
      if s.AtRest ∧ s.udp.handle.inited ∧ s.udp.handle.closing then some (s.withUdp s.udp.onClose)
      else none
  | .handshake call =>
      match s.stack with
      | .handshaking p :: rest => some ({ s with stack := rest }.afterSslDoHandshake p call)
      | _ => none
  | .read result =>
      match s.stack with
      | .reading p :: rest => some (s.onRead p rest result)
      | _ => none
  | .alert ret =>
      match s.stack with
      | .handshaking p :: _ | .reading p :: _ => some (s.sslStateCallback p ret)
      | _ => none
  | .leave answers => s.resume answers

end DtlsServer

end TarmIo.Net
