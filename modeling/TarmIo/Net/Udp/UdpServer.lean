import Mathlib.Logic.Function.Basic
import TarmIo.Backlog.Reentrancy
import TarmIo.Net.Udp.UdpImplBase

/-!
# `UdpServer.cpp`

The server with its three containers: the table of peers, the table of peers that
were closed and are still ignored, and the backlog that times peers out. The handlers
stop at every user callback, in which the user may close peers; `running` says which
callback that is and with it what the handler does next.

The maps are functions of the peer's id, generic in its type; a `UdpPeer` object is an id and a
serial number, since two objects may share an id. `uv_hrtime` and the times of the
last packets are the clock and the item times of the backlog.
-/

namespace TarmIo.Net

open BacklogWithTimeout

structure UdpPeer (ι : Type*) where
  id : ι
  serial : Nat
deriving DecidableEq

structure ReceiveArgs where
  endpointDefined : Bool := true
  hasDataCallback : Bool := true
  uv : UvUdp := {}

/-- The arguments of `start_receive` with peer tracking, and the clock at the call. -/
structure TrackingArgs extends ReceiveArgs where
  hasNewPeerCallback : Bool := true
  timeoutMs : UInt64
  now : UInt64 := 0

/-- What a callback may call on the server. -/
inductive ServerCall
  | bind (endpointDefined : Bool) (uv : UvUdp)
  | startReceive (args : ReceiveArgs)
  | startReceiveTracked (args : TrackingArgs)

namespace UdpServer

inductive CallbackKind
  | newPeer
  | data
  | timeout
deriving DecidableEq

/-- A call of one of the user's callbacks; `inactive` says whether the peer's id was in
`m_inactive_peers` then. -/
structure Invocation (ι : Type*) where
  callback : CallbackKind
  id : ι
  inactive : Bool
deriving DecidableEq

/-- The callback that runs. The timeout callback is called by a tick or by `add_item`; `it` is the
entry that `on_expired` found in `m_peers`. -/
inductive Running (ι : Type*)
  | idle
  | newPeer (p : UdpPeer ι)
  | data (p : UdpPeer ι)
  | timeout (p : UdpPeer ι) (it : Option (UdpPeer ι))
  | timeoutInAdd (p : UdpPeer ι) (it : Option (UdpPeer ι))
deriving DecidableEq

end UdpServer

open UdpServer in
/-- The members of `UdpServer::Impl`, and what happened so far: the peer objects made, the
callbacks called, and whether an entry of `m_peers` was erased through an iterator that was
no longer valid. -/
structure UdpServer (ι : Type*) where
  handle : UdpHandle := {}
  hasNewPeerCallback : Bool := false
  hasDataCallback : Bool := false
  closeCallback : Option (List ServerCall) := none
  peers : ι → Option (UdpPeer ι) := fun _ => none
  inactivePeers : ι → Bool := fun _ => false
  peersBacklog : Option (Reentrant (UdpPeer ι)) := none
  connectionInProgress : Bool := false
  created : Nat := 0
  running : Running ι := .idle
  calls : List (Invocation ι) := []
  erasedTwice : Bool := false

namespace UdpServer

variable {ι : Type*}

/-! ## Starting and closing -/

def isOpen (s : UdpServer ι) : Bool :=
  s.handle.isOpen

def bind (endpointDefined : Bool) (uv : UvUdp) (s : UdpServer ι) : Error × UdpServer ι :=
  if !endpointDefined then (.ofCode .invalidArgument, s)
  else
    match s.handle.ensureInited uv with
    | (error, handle) =>
        if error.isError then (error, { s with handle })
        else
          match handle.bind uv with
          | (error, handle) => (error, { s with handle })

def startReceive (args : ReceiveArgs) (s : UdpServer ι) : Error × UdpServer ι :=
  match bind args.endpointDefined args.uv s with
  | (error, s) =>
      if error.isError then (error, s)
      else if args.uv.recvStart.isError then
        (args.uv.recvStart, { s with hasDataCallback := args.hasDataCallback })
      else
        ({}, { s with hasDataCallback := args.hasDataCallback, connectionInProgress := true })

/-- `start_receive` changes the handle and two members, whether it succeeds or not. -/
theorem startReceive_frame (args : ReceiveArgs) (s : UdpServer ι) :
    ∃ handle hasDataCallback connectionInProgress,
      (startReceive args s).2 = { s with handle, hasDataCallback, connectionInProgress } := by
  rw [startReceive, UdpServer.bind]
  cases args.endpointDefined with
  | false => exact ⟨_, _, _, rfl⟩
  | true =>
      simp only [Bool.not_true, Bool.false_eq_true, if_false]
      repeat' split
      all_goals exact ⟨_, _, _, rfl⟩

/-- `start_receive` with peer tracking. The backlog is installed before the handle is bound. -/
def startReceiveTracked (args : TrackingArgs) (s : UdpServer ι) : Error × UdpServer ι :=
  if args.timeoutMs = 0 then (.ofCode .invalidArgument, s)
  else if s.connectionInProgress then (.ofCode .connectionAlreadyInProgress, s)
  else
    startReceive args.toReceiveArgs
      { s with
        hasNewPeerCallback := args.hasNewPeerCallback
        peersBacklog := some (Reentrant.start args.timeoutMs args.now fun _ => 0) }

def started (ι : Type*) (args : TrackingArgs) : UdpServer ι :=
  (startReceiveTracked args {}).2

def call (s : UdpServer ι) : ServerCall → UdpServer ι
  | .bind endpointDefined uv => (bind endpointDefined uv s).2
  | .startReceive args => (startReceive args s).2
  | .startReceiveTracked args => (startReceiveTracked args s).2

def close (callback : Option (List ServerCall)) (s : UdpServer ι) : UdpServer ι :=
  if s.isOpen then { s with closeCallback := callback, handle := s.handle.close } else s

def onClose (s : UdpServer ι) : UdpServer ι :=
  match s.closeCallback with
  | none => { s with connectionInProgress := false }
  | some calls =>
      { calls.foldl call
          { s with handle := s.handle.resetState, connectionInProgress := false } with
        peers := fun _ => none
        inactivePeers := fun _ => false
        peersBacklog := none }

/-! ## Peers -/

def invoke (s : UdpServer ι) (callback : CallbackKind) (p : UdpPeer ι) : UdpServer ι :=
  { s with
    calls := s.calls ++ [{ callback, id := p.id, inactive := s.inactivePeers p.id }] }

def BetweenCallbacks (s : UdpServer ι) : Prop :=
  s.running = .idle ∧ ∀ r, s.peersBacklog = some r → r.AtRest

variable [DecidableEq ι]

def track (s : UdpServer ι) (c : Call (UdpPeer ι)) : Option (UdpServer ι) :=
  s.peersBacklog.bind fun r => (r.step c).map fun r => { s with peersBacklog := some r }

def stamp (p : UdpPeer ι) (r : Reentrant (UdpPeer ι)) : Reentrant (UdpPeer ι) :=
  { r with
    backlog :=
      { r.backlog with itemTime := Function.update r.backlog.itemTime p r.backlog.clock } }

/-- The end of `on_data_received` for a tracked peer. -/
def deliver (s : UdpServer ι) (p : UdpPeer ι) : UdpServer ι :=
  { s.invoke .data p with peersBacklog := s.peersBacklog.map (stamp p), running := .data p }

def announce (s : UdpServer ι) (p : UdpPeer ι) : UdpServer ι :=
  if s.hasNewPeerCallback then { s.invoke .newPeer p with running := .newPeer p }
  else s.deliver p

/-- The expired callback of the backlog, up to the call of the timeout callback. -/
def onExpired (s : UdpServer ι) (inAdd : Bool) (p : UdpPeer ι) : UdpServer ι :=
  { s.invoke .timeout p with
    running :=
      if inAdd then .timeoutInAdd p (s.peers p.id) else .timeout p (s.peers p.id) }

/-- The rest of the expired callback: the entry that was found is erased. -/
def eraseFound (s : UdpServer ι) (p : UdpPeer ι) (it : Option (UdpPeer ι)) : UdpServer ι :=
  if it = none then s
  else if s.peers p.id = it then { s with peers := Function.update s.peers p.id none }
  else { s with erasedTwice := true }

/-- The first packet of a peer. The clock is read once for the peer and once more, at `addedAt`,
in `add_item`. -/
def register (s : UdpServer ι) (r : Reentrant (UdpPeer ι)) (p : UdpPeer ι) (addedAt : UInt64) :
    Option (UdpServer ι) :=
  ((stamp p r).step (.advance addedAt (stamp p r).backlog.itemTime)).bind fun r₁ =>
    (r₁.step (.addItem p)).map fun r₂ =>
      let s :=
        { s with
          peers := Function.update s.peers p.id (some p)
          peersBacklog := some r₂
          created := s.created + 1 }
      if r₁.callbacks < r₂.callbacks then s.onExpired true p else s.announce p

def onDataReceived (s : UdpServer ι) (id : ι) (addedAt : UInt64) : Option (UdpServer ι) :=
  if !s.hasDataCallback then some s
  else
    match s.peersBacklog with
    | none =>
        -- without peer tracking the peer lives for one call
        some { s.invoke .data ⟨id, s.created⟩ with
          running := .data ⟨id, s.created⟩, created := s.created + 1 }
    | some r =>
        if s.inactivePeers id then some s
        else
          match s.peers id with
          | some p => some (s.deliver p)
          | none => s.register r ⟨id, s.created⟩ addedAt

def closePeer (s : UdpServer ι) (p : UdpPeer ι) : Option (UdpServer ι) :=
  if s.inactivePeers p.id then some s
  else
    match s.peers p.id with
    | none => some { s with inactivePeers := Function.update s.inactivePeers p.id true }
    | some q =>
        (s.track (.removeItem q)).map fun s =>
          { s with
            inactivePeers := Function.update s.inactivePeers p.id true
            peers := Function.update s.peers p.id none }

def visit (s : UdpServer ι) (r : Reentrant (UdpPeer ι)) : Option (UdpServer ι) :=
  (r.step .visit).map fun r' =>
    match r.upcoming with
    | none => { s with peersBacklog := some r' }
    | some p =>
        if r.callbacks < r'.callbacks then
          { s with peersBacklog := some r' }.onExpired false p
        else { s with peersBacklog := some r' }

/-! ## The machine -/

/-- `leave` is the end of the callback that runs, `inactivityOver` the timer of a closed peer. -/
inductive Event (ι : Type*)
  | datagram (id : ι) (addedAt : UInt64)
  | closePeer (p : UdpPeer ι)
  | onTimer (index : Nat)
  | visit
  | inactivityOver (id : ι)
  | leave
  | advance (clock : UInt64)

def UserRuns (s : UdpServer ι) : Prop :=
  s.running ≠ .idle ∨ s.BetweenCallbacks

instance (s : UdpServer ι) : Decidable s.BetweenCallbacks :=
  decidable_of_iff (s.running = .idle ∧
      (s.peersBacklog.all fun r => r.walk.isNone && r.callbacks == 0) = true) (by
    cases hr : s.peersBacklog <;> simp [BetweenCallbacks, Reentrant.AtRest, hr])

instance (s : UdpServer ι) : Decidable s.UserRuns :=
  inferInstanceAs (Decidable (_ ∨ _))

def step (s : UdpServer ι) : Event ι → Option (UdpServer ι)
  | .datagram id addedAt =>
      if s.BetweenCallbacks ∧ s.isOpen then s.onDataReceived id addedAt else none
  | .closePeer p => if s.UserRuns then s.closePeer p else none
  | .onTimer index => if s.BetweenCallbacks then s.track (.onTimer index) else none
  | .visit => if s.running = .idle then s.peersBacklog.bind s.visit else none
  | .inactivityOver id =>
      if s.BetweenCallbacks ∧ s.inactivePeers id then
        some { s with inactivePeers := Function.update s.inactivePeers id false }
      else none
  | .leave =>
      match s.running with
      | .idle => none
      | .newPeer p => some (s.deliver p)
      | .data _ => some { s with running := .idle }
      | .timeout p it =>
          (s.track .leave).map fun s => { s.eraseFound p it with running := .idle }
      | .timeoutInAdd p it => (s.track .leave).map fun s => (s.eraseFound p it).announce p
  | .advance clock =>
      s.peersBacklog.bind fun r => s.track (.advance clock r.backlog.itemTime)

end UdpServer

end TarmIo.Net
