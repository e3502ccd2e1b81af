import TarmIo.Net.Udp.UdpServer

/-!
# What a failed `start_receive` leaves behind

Both overloads of `start_receive` write members before the calls that may fail. To
tell what is left of a failed call, the callbacks of the server and its backlog get
names here: a callback is null or a number, and backlogs are numbered as they are
made. `server` is the server of `UdpServer.lean`, which only knows whether a callback
is null.
-/

namespace TarmIo.Net

open Foundation

namespace UdpServer

structure NamedReceiveArgs where
  endpointDefined : Bool := true
  dataReceiveCallback : Option Nat := none
  uv : UvUdp := {}

structure NamedTrackingArgs extends NamedReceiveArgs where
  newPeerCallback : Option Nat := none
  peerTimeoutCallback : Option Nat := none
  timeoutMs : UInt64
  now : UInt64 := 0

inductive Start
  | untracked (args : NamedReceiveArgs)
  | tracked (args : NamedTrackingArgs)

def NamedReceiveArgs.unnamed (args : NamedReceiveArgs) : ReceiveArgs where
  endpointDefined := args.endpointDefined
  hasDataCallback := args.dataReceiveCallback.isSome
  uv := args.uv

def NamedTrackingArgs.unnamed (args : NamedTrackingArgs) : TrackingArgs where
  toReceiveArgs := args.toNamedReceiveArgs.unnamed
  hasNewPeerCallback := args.newPeerCallback.isSome
  timeoutMs := args.timeoutMs
  now := args.now

end UdpServer

open UdpServer

/-- `closePending` says that `uv_close` was called and `on_close` is to run. -/
structure NamedUdpServer (ι : Type*) where
  server : UdpServer ι := {}
  newPeerCallback : Option Nat := none
  dataReceiveCallback : Option Nat := none
  peerTimeoutCallback : Option Nat := none
  backlog : Option Nat := none
  backlogsMade : Nat := 0
  closePending : Bool := false
  inCloseCallback : Bool := false

namespace NamedUdpServer

variable {ι : Type*}

/-! ## The two overloads -/

def startReceive (args : NamedReceiveArgs) (s : NamedUdpServer ι) : Error × NamedUdpServer ι :=
  match s.server.bind args.endpointDefined args.uv with
  | (error, server) =>
      if error.isError then (error, { s with server })
      else
        let server := { server with hasDataCallback := args.dataReceiveCallback.isSome }
        let s := { s with server, dataReceiveCallback := args.dataReceiveCallback }
        if args.uv.recvStart.isError then (args.uv.recvStart, s)
        else ({}, { s with server := { server with connectionInProgress := true } })

/-- The members that the overload with peer tracking writes before it calls the other one. -/
def installTracking (args : NamedTrackingArgs) (s : NamedUdpServer ι) : NamedUdpServer ι :=
  { s with
    server :=
      { s.server with
        hasNewPeerCallback := args.newPeerCallback.isSome
        peersBacklog :=
          some (BacklogWithTimeout.Reentrant.start args.timeoutMs args.now fun _ => 0) }
    newPeerCallback := args.newPeerCallback
    peerTimeoutCallback := args.peerTimeoutCallback
    backlog := some s.backlogsMade
    backlogsMade := s.backlogsMade + 1 }

def startReceiveTracked (args : NamedTrackingArgs) (s : NamedUdpServer ι) :
    Error × NamedUdpServer ι :=
  if args.timeoutMs = 0 then (.ofCode .invalidArgument, s)
  else if s.server.connectionInProgress then (.ofCode .connectionAlreadyInProgress, s)
  else startReceive args.toNamedReceiveArgs (s.installTracking args)

def start (s : NamedUdpServer ι) : Start → Error × NamedUdpServer ι
  | .untracked args => startReceive args s
  | .tracked args => startReceiveTracked args s

def peerBookkeepingEnabled (s : NamedUdpServer ι) : Bool := s.server.peersBacklog.isSome

theorem startReceive_server (args : NamedReceiveArgs) (s : NamedUdpServer ι) :
    (startReceive args s).map id server = UdpServer.startReceive args.unnamed s.server := by
  rw [startReceive, UdpServer.startReceive]
  dsimp only [NamedReceiveArgs.unnamed]
  rcases s.server.bind args.endpointDefined args.uv with ⟨error, server⟩
  by_cases herror : error.isError = true
  · simp [herror]
  · by_cases hrecv : args.uv.recvStart.isError = true
    · simp [herror, hrecv]
    · simp [herror, hrecv]

theorem startReceiveTracked_server (args : NamedTrackingArgs) (s : NamedUdpServer ι) :
    (startReceiveTracked args s).map id server =
      UdpServer.startReceiveTracked args.unnamed s.server := by
  rw [startReceiveTracked, UdpServer.startReceiveTracked]
  change _ = if args.timeoutMs = 0 then _ else _
  split
  · rfl
  · split
    · rfl
    · exact startReceive_server args.toNamedReceiveArgs (s.installTracking args)

/-! ## The machine -/

def close (s : NamedUdpServer ι) (withCallback : Bool) : NamedUdpServer ι :=
  if s.server.isOpen then
    { s with
      server := s.server.close (if withCallback then some [] else none)
      closePending := true }
  else s

def onClose (s : NamedUdpServer ι) : NamedUdpServer ι :=
  match s.server.closeCallback with
  | none =>
      { s with server := { s.server with connectionInProgress := false }, closePending := false }
  | some _ =>
      { s with
        server :=
          { s.server with handle := s.server.handle.resetState, connectionInProgress := false }
        closePending := false
        inCloseCallback := true }

def closeCallbackReturns (s : NamedUdpServer ι) : NamedUdpServer ι :=
  { s with
    server :=
      { s.server with
        peers := fun _ => none
        inactivePeers := fun _ => false
        peersBacklog := none }
    backlog := none
    inCloseCallback := false }

/-- A callback that does nothing, in one step as in `UdpServer.onClose`. -/
theorem onClose_server (s : NamedUdpServer ι) (h : s.server.closeCallback = some []) :
    s.onClose.closeCallbackReturns.server = s.server.onClose := by
  rw [onClose, UdpServer.onClose]
  simp only [h]
  rfl

inductive Event (ι : Type*)
  | start (call : Start)
  | close (withCallback : Bool)
  | onClose
  | closeCallbackReturns
  | server (event : UdpServer.Event ι)

/-! ## What is left -/

variable {s : NamedUdpServer ι}

/-- All that a failed start is expected to leave as it was. -/
structure Trace where
  newPeerCallback : Option Nat
  dataReceiveCallback : Option Nat
  peerTimeoutCallback : Option Nat
  backlog : Option Nat
  timers : List UInt64
  connectionInProgress : Bool
deriving DecidableEq

def trace (s : NamedUdpServer ι) : Trace where
  newPeerCallback := s.newPeerCallback
  dataReceiveCallback := s.dataReceiveCallback
  peerTimeoutCallback := s.peerTimeoutCallback
  backlog := s.backlog
  timers := (s.server.peersBacklog.map (·.backlog.timers)).getD []
  connectionInProgress := s.server.connectionInProgress

def Installs (s : NamedUdpServer ι) : Start → Prop
  | .untracked _ => False
  | .tracked args => args.timeoutMs ≠ 0 ∧ s.server.connectionInProgress = false

/-- The call fails before it writes anything, or writes what is there already. -/
def LeavesAlone (s : NamedUdpServer ι) : Start → Prop
  | .untracked args =>
      (s.server.bind args.endpointDefined args.uv).1.isError = true ∨
        args.dataReceiveCallback = s.dataReceiveCallback
  | .tracked args => ¬ s.Installs (.tracked args)

theorem bind_frame (endpointDefined : Bool) (uv : UvUdp) (v : UdpServer ι) :
    ∃ handle, (v.bind endpointDefined uv).2 = { v with handle } := by
  unfold UdpServer.bind
  repeat' split
  all_goals exact ⟨_, rfl⟩

/-- All that `start_receive` without peer tracking does to the trace. -/
theorem trace_startReceive (args : NamedReceiveArgs) (s : NamedUdpServer ι) :
    (startReceive args s).2.trace =
      { s.trace with
        dataReceiveCallback :=
          if (s.server.bind args.endpointDefined args.uv).1.isError then s.dataReceiveCallback
          else args.dataReceiveCallback
        connectionInProgress :=
          s.server.connectionInProgress || !(startReceive args s).1.isError } := by
  obtain ⟨handle, hbind⟩ := bind_frame args.endpointDefined args.uv s.server
  unfold startReceive
  rcases hpair : s.server.bind args.endpointDefined args.uv with ⟨error, server⟩
  rw [hpair] at hbind
  cases hbind
  by_cases herror : error.isError = true
  · simp [herror, trace]
  · by_cases hrecv : args.uv.recvStart.isError = true
    · simp [herror, hrecv, trace]
    · simp [herror, hrecv, trace]

/-- Starting without peer tracking never turns the tracking off or on. -/
theorem peersBacklog_startReceive (args : NamedReceiveArgs) (s : NamedUdpServer ι) :
    (startReceive args s).2.server.peersBacklog = s.server.peersBacklog := by
  have hserver := congrArg Prod.snd (startReceive_server args s)
  obtain ⟨_, _, _, hframe⟩ := UdpServer.startReceive_frame args.unnamed s.server
  rw [hframe] at hserver
  change (startReceive args s).2.server = _ at hserver
  rw [hserver]

theorem backlog_startReceive (args : NamedReceiveArgs) (s : NamedUdpServer ι) :
    (startReceive args s).2.backlog = s.backlog ∧
      (startReceive args s).2.backlogsMade = s.backlogsMade := by
  unfold startReceive
  rcases s.server.bind args.endpointDefined args.uv with ⟨error, server⟩
  dsimp only
  repeat' split
  all_goals exact ⟨rfl, rfl⟩

theorem startReceiveTracked_refused {args : NamedTrackingArgs} (h : ¬ s.Installs (.tracked args)) :
    (startReceiveTracked args s).2 = s := by
  unfold startReceiveTracked
  by_cases htimeout : args.timeoutMs = 0
  · rw [if_pos htimeout]
  · have hprogress : s.server.connectionInProgress = true :=
      Bool.not_eq_false _ ▸ fun hfalse => h ⟨htimeout, hfalse⟩
    rw [if_neg htimeout, if_pos hprogress]

theorem startReceiveTracked_installs {args : NamedTrackingArgs} (h : s.Installs (.tracked args)) :
    startReceiveTracked args s =
      startReceive args.toNamedReceiveArgs (s.installTracking args) := by
  obtain ⟨htimeout, hprogress⟩ := h
  rw [startReceiveTracked, if_neg htimeout, hprogress, if_neg Bool.false_ne_true]

/-- Whether a backlog is there after a start. -/
theorem peersBacklog_start (s : NamedUdpServer ι) (call : Start) :
    (s.start call).2.server.peersBacklog.isSome = true ↔
      s.server.peersBacklog.isSome = true ∨ s.Installs call := by
  cases call with
  | untracked args =>
      rw [start, peersBacklog_startReceive]
      simp [Installs]
  | tracked args =>
      by_cases h : s.Installs (.tracked args)
      · rw [start, startReceiveTracked_installs h, peersBacklog_startReceive]
        simp [installTracking, h]
      · rw [start, startReceiveTracked_refused h]
        simp [h]

/-! ## The machine -/

def Numbered (s : NamedUdpServer ι) : Prop := ∀ n ∈ s.backlog, n < s.backlogsMade

theorem numbered_start (hs : s.Numbered) (call : Start) : (s.start call).2.Numbered := by
  cases call with
  | untracked args =>
      obtain ⟨hname, hmade⟩ := backlog_startReceive args s
      rw [start, Numbered, hname, hmade]
      exact hs
  | tracked args =>
      by_cases h : s.Installs (.tracked args)
      · obtain ⟨hname, hmade⟩ :=
          backlog_startReceive args.toNamedReceiveArgs (s.installTracking args)
        rw [start, startReceiveTracked_installs h, Numbered, hname, hmade]
        intro n hn
        obtain rfl := Option.mem_some_iff.mp hn
        exact Nat.lt_succ_self _
      · rw [start, startReceiveTracked_refused h]
        exact hs

variable [DecidableEq ι]

/-- The user may call in any callback, so nothing but the loop's own callbacks is guarded. -/
def step (s : NamedUdpServer ι) : Event ι → Option (NamedUdpServer ι)
  | .start call => some (s.start call).2
  | .close withCallback => some (s.close withCallback)
  | .onClose => if s.closePending ∧ s.inCloseCallback = false then some s.onClose else none
  | .closeCallbackReturns => if s.inCloseCallback then some s.closeCallbackReturns else none
  | .server event => (s.server.step event).map fun server => { s with server }

theorem numbered_step (s : NamedUdpServer ι) (e : Event ι) (s' : NamedUdpServer ι)
    (hs : s.Numbered) (hstep : s.step e = some s') : s'.Numbered := by
  cases e with
  | start call =>
      cases hstep
      exact numbered_start hs call
  | close withCallback =>
      cases hstep
      unfold close
      split
      · exact hs
      · exact hs
  | onClose =>
      obtain ⟨_, rfl⟩ := by simpa [step] using hstep
      unfold onClose
      split
      · exact hs
      · exact hs
  | closeCallbackReturns =>
      obtain ⟨_, rfl⟩ := by simpa [step] using hstep
      intro n hn
      cases hn
  | server event =>
      obtain ⟨server, _, rfl⟩ := Option.map_eq_some_iff.mp hstep
      exact hs

/-- In every reachable state, a start that fails leaves everything as it was exactly when it
fails before its first write or writes the callback that is there already; and on a server
without tracking, a later start without tracking that succeeds runs without tracking exactly
when the failed one did not get as far as to install it. -/
theorem failed_start_trace_iff {run : List (Event ι)} {s : NamedUdpServer ι}
    (hrun : exec step {} run = some s) (call : Start) (herror : (s.start call).1.isError = true) :
    ((s.start call).2.trace = s.trace ↔ s.LeavesAlone call) ∧
      (s.peerBookkeepingEnabled = false → ∀ later : NamedReceiveArgs,
        (startReceive later (s.start call).2).1.isError = false →
          ((startReceive later (s.start call).2).2.peerBookkeepingEnabled = false ↔
            ¬ s.Installs call)) := by
  have hs : s.Numbered := exec_invariant numbered_step (fun _ h => by cases h) hrun
  constructor
  · cases call with
    | untracked args =>
        have hwritten := trace_startReceive args s
        rw [show (startReceive args s).1.isError = true from herror] at hwritten
        rw [start, hwritten, LeavesAlone]
        by_cases hbind : (s.server.bind args.endpointDefined args.uv).1.isError = true
        · simp [hbind, trace]
        · simp [hbind, trace]
    | tracked args =>
        by_cases h : s.Installs (.tracked args)
        · rw [start, startReceiveTracked_installs h]
          refine iff_of_false ?_ (not_not_intro h)
          intro hsame
          -- The new backlog is not the old one, whatever that was.
          have hname := congrArg Trace.backlog hsame
          change (startReceive _ _).2.backlog = s.backlog at hname
          rw [(backlog_startReceive _ _).1] at hname
          exact absurd (hs _ hname.symm) (Nat.lt_irrefl _)
        · rw [start, startReceiveTracked_refused h]
          exact iff_of_true rfl h
  · intro hplain later _
    have hafter := peersBacklog_start s call
    unfold peerBookkeepingEnabled at hplain ⊢
    rw [peersBacklog_startReceive, ← Bool.not_eq_true, hafter, hplain]
    simp

/-- The address is in use when a server is started with peer tracking for the first time. -/
def addressInUse : NamedTrackingArgs where
  timeoutMs := 500
  dataReceiveCallback := some 1
  peerTimeoutCallback := some 2
  uv := { bind := .ofCode .addressAlreadyInUse }

/-- Then it is started without tracking. The timers of the failed start run, and the sender of
the first packet is tracked. -/
theorem failed_start_tracks :
    (start ({} : NamedUdpServer Nat) (.tracked addressInUse)).1.code = .addressAlreadyInUse ∧
    (start ({} : NamedUdpServer Nat) (.tracked addressInUse)).2.trace.timers =
      [500, 250, 125, 62, 31, 15, 7, 3] ∧
    ∃ s ∈ exec step ({} : NamedUdpServer Nat)
        [.start (.tracked addressInUse), .start (.untracked { dataReceiveCallback := some 3 }),
          .server (.datagram 7 0)],
      (s.server.peers 7).isSome = true := by
  refine ⟨by decide +kernel, by decide +kernel, by decide +kernel⟩

/-- A failed `uv_udp_recv_start` on a fresh server. -/
theorem failed_start_trace_iff_recvStart :
    let call := Start.untracked
      { dataReceiveCallback := some 1, uv := { recvStart := .ofCode .ioError } }
    ((start ({} : NamedUdpServer Nat) call).2.trace = trace ({} : NamedUdpServer Nat) ↔
        LeavesAlone ({} : NamedUdpServer Nat) call) ∧
      ¬ LeavesAlone ({} : NamedUdpServer Nat) call := by
  intro call
  have hiff := @failed_start_trace_iff Nat _ [] {} rfl call (by decide)
  exact ⟨hiff.1, by rintro (h | h) <;> revert h <;> decide⟩

end NamedUdpServer

end TarmIo.Net
