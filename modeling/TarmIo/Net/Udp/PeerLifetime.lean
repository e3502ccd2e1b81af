import Mathlib.Data.List.Perm.Basic
import TarmIo.Net.Udp.PeerReferences

/-!
# How long a peer lives

A peer has one reference from its server and one from each of its sends that libuv has accepted,
and asks for its removal when the last of them is given up. The machine below runs a server with the
sends of its peers. It stops in every callback, and send callbacks may be nested.

The removal takes a turn of the loop: `on_removal` closes the idle handle that `schedule_removal`
has started, and the close callback, at the end of the turn, deletes the peer. The callbacks of
`schedule_send_error` are called before that end.

A send that is refused before it gets to libuv takes no reference. When its callback is called, the
peer may have been let go of: a send from that callback takes up a reference of a peer that is
deleted all the same, and if it is refused again, its callback comes after the deletion.

Peers are used while the server refers to them and in their own send callbacks, and are not
closed in the new-peer and the timeout callbacks. `start_receive` is called outside the
callbacks of the server. The peer on the stack of a receive error is left out.
-/

namespace TarmIo

/-! ## `RefCounted.cpp` -/

structure RefCounted where
  refCounter : Nat := 1
  removals : Nat := 0
deriving DecidableEq

namespace RefCounted

variable {sends : Nat} {referred : Bool}

def ref (c : RefCounted) : RefCounted := { c with refCounter := c.refCounter + 1 }

def unref (c : RefCounted) : RefCounted :=
  if c.refCounter = 0 then c
  else if c.refCounter = 1 then { refCounter := 0, removals := c.removals + 1 }
  else { c with refCounter := c.refCounter - 1 }

/-- What is expected of a peer with so many sends in flight: a reference for each of them and one
for the server, and one call of `schedule_removal` once there are none. -/
def due (sends : Nat) (referred : Bool) : RefCounted where
  refCounter := sends + referred.toNat
  removals := if sends = 0 ∧ referred = false then 1 else 0

theorem due_new : ({} : RefCounted) = due 0 true := rfl

theorem ref_due (h : (due sends referred).refCounter ≠ 0) :
    (due sends referred).ref = due (sends + 1) referred := by
  cases referred with
  | true => simp [ref, due]
  | false =>
      have hsends : sends ≠ 0 := by simpa [due] using h
      simp [ref, due, hsends]

theorem ref_due_ne (h : (due sends referred).refCounter = 0) :
    (due sends referred).ref ≠ due (sends + 1) referred := by
  obtain ⟨rfl, hreferred⟩ : sends = 0 ∧ referred.toNat = 0 := by simpa [due] using h
  cases referred with
  | true => cases hreferred
  | false => simp [ref, due]

theorem unref_due_send (sends : Nat) (referred : Bool) :
    (due (sends + 1) referred).unref = due sends referred := by
  cases referred with
  | true => simp [unref, due]
  | false =>
      cases sends with
      | zero => rfl
      | succ n => simp [unref, due]

theorem unref_due_server (sends : Nat) : (due sends true).unref = due sends false := by
  cases sends with
  | zero => rfl
  | succ n => simp [unref, due]

end RefCounted

end TarmIo

namespace TarmIo.Net

open Foundation UdpServer

/-! ## The machine -/

structure SendRequest (ι : Type*) where
  peer : UdpPeer ι
  callback : Bool

/-- Who calls a send callback: `on_send`, `send_data` itself after `uv_udp_send` has failed, or the
loop after `schedule_send_error`. -/
inductive SendOutcome
  | completed
  | failed
  | refused
deriving DecidableEq

structure SendCallback (ι : Type*) where
  peer : UdpPeer ι
  outcome : SendOutcome
  error : Error

/-- `counts` has the peers that exist, `detached` those whose `m_udp_handle` is null. `scheduled`
lists the calls of `schedule_send_error` whose callbacks come in the next turn of the loop, `due`
those whose callbacks are still to come in this one. `closing` has the peers that are deleted at the
end of this turn, `idled` says that its idle handles have been called, and `inside` lists the send
callbacks that run, the innermost first. -/
structure PeerLifetimes (ι : Type*) where
  server : NamedUdpServer ι := {}
  counts : UdpPeer ι → Option RefCounted := fun _ => none
  detached : UdpPeer ι → Bool := fun _ => false
  inFlight : List (SendRequest ι) := []
  scheduled : List (UdpPeer ι × Error) := []
  due : List (UdpPeer ι × Error) := []
  closing : UdpPeer ι → Bool := fun _ => false
  idled : Bool := false
  inside : List (SendCallback ι) := []

namespace PeerLifetimes

variable {ι : Type*} {call : SendCallback ι}

def Mentions (s : PeerLifetimes ι) (p : UdpPeer ι) : Prop :=
  (∃ q ∈ s.inFlight, q.peer = p) ∨ (∃ q ∈ s.scheduled ++ s.due, q.1 = p) ∨
    ∃ q ∈ s.inside, q.peer = p

/-- `UdpImplBase::is_open`. Peers share the handle of the server. -/
def isOpen (s : PeerLifetimes ι) (p : UdpPeer ι) : Bool :=
  !s.detached p && !s.server.server.handle.closing

def scheduleSendError (s : PeerLifetimes ι) (p : UdpPeer ι) (callback : Bool) (error : Error) :
    PeerLifetimes ι :=
  if callback then { s with scheduled := s.scheduled ++ [(p, error)] } else s

variable [DecidableEq ι]

instance (v : UdpServer ι) (p : UdpPeer ι) : Decidable (v.Refers p) :=
  inferInstanceAs (Decidable (_ ∨ _ ∨ _))

/-- A send is in flight from the return of `uv_udp_send` to the end of `on_send`. -/
def sendsInFlight (s : PeerLifetimes ι) (p : UdpPeer ι) : Nat :=
  s.inFlight.countP (·.peer = p) +
    s.inside.countP fun q => q.peer = p ∧ q.outcome = .completed

/-- The server has changed. A peer that it has let go of gets the `unref` of `free_udp_peer`, or
of `on_data_received` after the callback of an untracked peer. -/
def withServer (s : PeerLifetimes ι) (server : NamedUdpServer ι) : PeerLifetimes ι :=
  { s with
    server
    counts := fun p =>
      if s.server.server.Refers p ∧ ¬ server.server.Refers p then
        (s.counts p).map RefCounted.unref
      else if s.server.server.created ≤ p.serial ∧ server.server.Refers p then some {}
      else s.counts p }

def ref (s : PeerLifetimes ι) (p : UdpPeer ι) : PeerLifetimes ι :=
  { s with counts := Function.update s.counts p ((s.counts p).map RefCounted.ref) }

def unref (s : PeerLifetimes ι) (p : UdpPeer ι) : PeerLifetimes ι :=
  { s with counts := Function.update s.counts p ((s.counts p).map RefCounted.unref) }

def setLastPacketTime (s : PeerLifetimes ι) (p : UdpPeer ι) : PeerLifetimes ι :=
  { s with
    server :=
      { s.server with
        server :=
          { s.server.server with
            peersBacklog := s.server.server.peersBacklog.map (UdpServer.stamp p) } } }

/-- `send_data_impl`; `uvSend` is the answer of `uv_udp_send`. The endpoint of a peer is always
defined. -/
def sendData (s : PeerLifetimes ι) (p : UdpPeer ι) (size : UInt32) (callback : Bool)
    (uvSend : Error) : PeerLifetimes ι :=
  if size = 0 then s.scheduleSendError p callback (.ofCode .invalidArgument)
  else if !s.isOpen p then s.scheduleSendError p callback (.ofCode .operationCanceled)
  else
    let s := s.setLastPacketTime p
    if uvSend.isError then
      if callback then { s with inside := ⟨p, .failed, uvSend⟩ :: s.inside } else s
    else { s.ref p with inFlight := s.inFlight ++ [⟨p, callback⟩] }

/-- `on_send`, up to its callback if it has one. -/
def onSend (s : PeerLifetimes ι) (index : Nat) (request : SendRequest ι) (status : Error) :
    PeerLifetimes ι :=
  let s := { s with inFlight := s.inFlight.eraseIdx index }
  if request.callback then { s with inside := ⟨request.peer, .completed, status⟩ :: s.inside }
  else s.unref request.peer

def leaveSend (s : PeerLifetimes ι) (call : SendCallback ι) (rest : List (SendCallback ι)) :
    PeerLifetimes ι :=
  match call.outcome with
  | .completed => { s.unref call.peer with inside := rest }
  | .failed => { s with inside := rest }
  | .refused => { s with inside := rest }

/-- The idle handles of a turn: `on_removal` of the peers whose removal is scheduled, and the
executor of the scheduled callbacks, which takes its queue. -/
def onIdle (s : PeerLifetimes ι) : PeerLifetimes ι :=
  { s with
    due := s.scheduled
    scheduled := []
    closing := fun p => decide (∃ c ∈ s.counts p, c.removals ≠ 0)
    idled := true }

/-- The end of a turn: `on_delete_idle_handle_close`. -/
def endTurn (s : PeerLifetimes ι) : PeerLifetimes ι :=
  { s with
    counts := fun p => if s.closing p then none else s.counts p
    closing := fun _ => false
    idled := false }

/-- `server` stands for the events of the server other than the close of a peer. `runScheduled`
runs the next callback of `schedule_send_error`, `leaveSend` ends the innermost send callback. -/
inductive Event (ι : Type*)
  | server (event : UdpServer.Event ι)
  | start (call : Start)
  | close (withCallback : Bool)
  | onClose
  | closeCallbackReturns
  | closePeer (p : UdpPeer ι)
  | send (p : UdpPeer ι) (size : UInt32) (callback : Bool) (uvSend : Error)
  | onSend (index : Nat) (status : Error)
  | onIdle
  | runScheduled
  | endTurn
  | leaveSend

def UserRuns (s : PeerLifetimes ι) : Prop := s.inside ≠ [] ∨ s.server.server.UserRuns

def Resting (s : PeerLifetimes ι) : Prop :=
  s.inside.isEmpty = true ∧ s.server.server.BetweenCallbacks ∧ s.server.inCloseCallback = false

/-- Time passes in every callback, and the server goes on when no send callback runs. -/
def letsServer (s : PeerLifetimes ι) : UdpServer.Event ι → Bool
  | .advance _ => true
  | .closePeer _ => false
  | .datagram _ _ | .onTimer _ | .visit | .inactivityOver _ | .leave =>
      s.inside.isEmpty && !s.server.inCloseCallback

def MayUse (s : PeerLifetimes ι) (p : UdpPeer ι) : Prop :=
  s.server.server.Refers p ∨ ∃ q ∈ s.inside, q.peer = p

instance (s : PeerLifetimes ι) : Decidable s.UserRuns :=
  decidable_of_iff (s.inside.isEmpty = false ∨ s.server.server.UserRuns) (by
    simp [UserRuns])

instance (s : PeerLifetimes ι) : Decidable s.Resting := inferInstanceAs (Decidable (_ ∧ _))

instance (s : PeerLifetimes ι) (p : UdpPeer ι) : Decidable (s.MayUse p) :=
  inferInstanceAs (Decidable (_ ∨ _))

def step (s : PeerLifetimes ι) : Event ι → Option (PeerLifetimes ι)
  | .server event =>
      if s.letsServer event then (s.server.step (.server event)).map s.withServer else none
  | .start call =>
      if s.server.server.BetweenCallbacks then some (s.withServer (s.server.start call).2)
      else none
  | .close withCallback =>
      if s.UserRuns then some (s.withServer (s.server.close withCallback)) else none
  | .onClose => if s.Resting then (s.server.step .onClose).map s.withServer else none
  | .closeCallbackReturns =>
      if s.inside.isEmpty = true ∧ s.server.server.BetweenCallbacks then
        (s.server.step .closeCallbackReturns).map s.withServer
      else none
  | .closePeer p =>
      if s.UserRuns ∧ s.MayUse p ∧ s.server.server.ClosesPeers then
        (s.server.server.closePeer p).map fun server =>
          { s.withServer { s.server with server } with
            detached := Function.update s.detached p true }
      else none
  | .send p size callback uvSend =>
      if s.UserRuns ∧ s.MayUse p then some (s.sendData p size callback uvSend) else none
  | .onSend index status =>
      if s.Resting then (s.inFlight[index]?).map fun request => s.onSend index request status
      else none
  | .onIdle =>
      if s.Resting ∧ s.idled = false ∧ s.due.isEmpty = true then some s.onIdle else none
  | .runScheduled =>
      match s.due with
      | [] => none
      | (p, error) :: rest =>
          if s.Resting then
            some { s with due := rest, inside := ⟨p, .refused, error⟩ :: s.inside }
          else none
  | .endTurn =>
      if s.Resting ∧ s.idled = true ∧ s.due.isEmpty = true then some s.endTurn else none
  | .leaveSend =>
      match s.inside with
      | [] => none
      | call :: rest => some (s.leaveSend call rest)

/-! ## What is kept -/

/-- Every peer has the references that it should have, and `schedule_removal` was called for it
exactly if nothing refers to it any more, and once. -/
def Accounted (s : PeerLifetimes ι) : Prop :=
  ∀ p, ∀ c ∈ s.counts p, c = .due (s.sendsInFlight p) (s.server.server.Refers p)

/-- The peers are accounted for, and those that the server refers to or that a callback is called
for exist, or will when it is called. -/
structure Sound (s : PeerLifetimes ι) : Prop where
  accounted : s.Accounted
  exist : ∀ p, s.server.server.Refers p ∨ s.Mentions p → s.counts p ≠ none
  outlast : ∀ q ∈ s.scheduled, s.closing q.1 = false

def Accepts (s : PeerLifetimes ι) (p : UdpPeer ι) (size : UInt32) (uvSend : Error) : Prop :=
  size ≠ 0 ∧ s.isOpen p = true ∧ uvSend.isError = false

def Refuses (s : PeerLifetimes ι) (p : UdpPeer ι) (size : UInt32) : Prop :=
  size = 0 ∨ s.isOpen p = false

/-- No send is accepted from a peer without references, and none is refused with a callback from a
peer that is deleted in this turn. -/
def Timely (s : PeerLifetimes ι) : Event ι → Prop
  | .send p size callback uvSend =>
      (s.Accepts p size uvSend → ∀ c ∈ s.counts p, c.refCounter ≠ 0) ∧
        (s.Refuses p size → callback = true → s.closing p = false)
  | _ => True

instance (s : PeerLifetimes ι) (p : UdpPeer ι) (size : UInt32) (uvSend : Error) :
    Decidable (s.Accepts p size uvSend) :=
  inferInstanceAs (Decidable (_ ∧ _))

instance (s : PeerLifetimes ι) (p : UdpPeer ι) (size : UInt32) : Decidable (s.Refuses p size) :=
  inferInstanceAs (Decidable (_ ∨ _))

instance (s : PeerLifetimes ι) (e : Event ι) : Decidable (s.Timely e) := by
  cases e <;> unfold Timely <;> infer_instance

structure Inv (s : PeerLifetimes ι) : Prop where
  orderly : Orderly s.server.server
  sound : s.Sound
  known : ∀ p, s.counts p ≠ none → p.serial < s.server.server.created
  closing : ∀ p, s.closing p = true → ∃ c ∈ s.counts p, c.refCounter = 0

variable {s s' : PeerLifetimes ι} {p q : UdpPeer ι}

theorem sendsInFlight_eq_zero (h : ¬ s.Mentions p) : s.sendsInFlight p = 0 := by
  have hflight : s.inFlight.countP (·.peer = p) = 0 := by
    refine List.countP_eq_zero.mpr fun q hq => ?_
    simpa using fun hpeer => h (.inl ⟨q, hq, hpeer⟩)
  have hinside : s.inside.countP (fun q => q.peer = p ∧ q.outcome = .completed) = 0 := by
    refine List.countP_eq_zero.mpr fun q hq => ?_
    simpa using fun hpeer _ => h (.inr (.inr ⟨q, hq, hpeer⟩))
  rw [sendsInFlight, hflight, hinside]

/-- A step mentions at most one peer that was not mentioned, which exists. -/
theorem Inv.exist_of_mentions (h : Inv s) (hp : s.counts p ≠ none)
    (hmentions : s'.Mentions q → q = p ∨ s.Mentions q) (hq : s'.Mentions q) :
    s.counts q ≠ none := by
  rcases hmentions hq with rfl | hq
  · exact hp
  · exact h.sound.exist q (.inr hq)

theorem Inv.mayUse (h : Inv s) (huse : s.MayUse p) : s.counts p ≠ none :=
  h.sound.exist p (huse.imp id fun hinside => .inr (.inr hinside))

/-- A peer that is about to be deleted has no references. -/
theorem Inv.unused (h : Inv s) (hclosing : s.closing p = true) :
    s.sendsInFlight p = 0 ∧ ¬ s.server.server.Refers p := by
  obtain ⟨c, hc, hzero⟩ := h.closing p hclosing
  rw [h.sound.accounted p c hc] at hzero
  simpa [RefCounted.due] using hzero

theorem Inv.not_closing (h : Inv s) (hsends : s.sendsInFlight p ≠ 0) : s.closing p = false :=
  eq_false_of_ne_true fun hclosing => hsends (h.unused hclosing).1

/-! ## The server's steps -/

variable {server : NamedUdpServer ι}

/-- What becomes of the references of a peer: the server has let go of it, it is new, or nothing
has changed for it. -/
theorem withServer_cases (hgo : LetsGo s.server.server server.server) (q : UdpPeer ι) :
    (s.server.server.Refers q ∧ ¬ server.server.Refers q ∧
        (s.withServer server).counts q = (s.counts q).map RefCounted.unref) ∨
      (s.server.server.created ≤ q.serial ∧ server.server.Refers q ∧
        (s.withServer server).counts q = some {}) ∨
      ((server.server.Refers q ↔ s.server.server.Refers q) ∧
        (s.withServer server).counts q = s.counts q) := by
  by_cases hdropped : s.server.server.Refers q ∧ ¬ server.server.Refers q
  · exact .inl ⟨hdropped.1, hdropped.2, if_pos hdropped⟩
  · by_cases hmade : s.server.server.created ≤ q.serial ∧ server.server.Refers q
    · exact .inr (.inl ⟨hmade.1, hmade.2, (if_neg hdropped).trans (if_pos hmade)⟩)
    · refine .inr (.inr ⟨⟨fun hafter => ?_, fun hbefore => ?_⟩,
        (if_neg hdropped).trans (if_neg hmade)⟩)
      · exact (hgo.refers q hafter).resolve_right fun hfresh => hmade ⟨hfresh.1, hafter⟩
      · by_contra hafter
        exact hdropped ⟨hbefore, hafter⟩

/-- The server lets go of peers and makes new ones, and their references follow. -/
theorem Inv.withServer (h : Inv s)
    (hnext : Orderly server.server ∧ LetsGo s.server.server server.server) :
    Inv (s.withServer server) := by
  obtain ⟨horderly, hgo⟩ := hnext
  have hold : ∀ q, s.counts q ≠ none → q.serial < server.server.created :=
    fun q hq => (h.known q hq).trans_le hgo.created_le
  refine ⟨horderly, ⟨?_, ?_, h.sound.outlast⟩, ?_, ?_⟩
  · intro q c hc
    change c = .due (s.sendsInFlight q) (server.server.Refers q)
    rcases withServer_cases hgo q with ⟨hbefore, hafter, hcounts⟩ | ⟨hfresh, hafter, hcounts⟩ |
      ⟨hsame, hcounts⟩
    · obtain ⟨c, hcount, rfl⟩ := Option.map_eq_some_iff.mp (hcounts.symm.trans hc)
      rw [h.sound.accounted q c hcount, decide_eq_true hbefore, decide_eq_false hafter,
        RefCounted.unref_due_server]
    · cases hcounts.symm.trans hc
      -- Nothing mentions a peer that was not there.
      have hsends : s.sendsInFlight q = 0 := by
        refine sendsInFlight_eq_zero fun hmention => ?_
        exact absurd (h.known q (h.sound.exist q (.inr hmention))) (Nat.not_lt.mpr hfresh)
      rw [hsends, decide_eq_true hafter]
      exact RefCounted.due_new
    · rw [decide_eq_decide.mpr hsame]
      exact h.sound.accounted q c (hcounts.symm.trans hc)
  · intro q hq
    rcases withServer_cases hgo q with ⟨hbefore, _, hcounts⟩ | ⟨_, _, hcounts⟩ | ⟨hsame, hcounts⟩
    · rw [hcounts, Ne, Option.map_eq_none_iff]
      exact h.sound.exist q (.inl hbefore)
    · rw [hcounts]
      exact Option.some_ne_none _
    · rw [hcounts]
      exact h.sound.exist q (hq.imp hsame.mp id)
  · intro q hq
    rcases withServer_cases hgo q with ⟨hbefore, _, _⟩ | ⟨_, hafter, _⟩ | ⟨_, hcounts⟩
    · exact hold q (h.sound.exist q (.inl hbefore))
    · rcases hgo.refers q hafter with hbefore | hfresh
      · exact hold q (h.sound.exist q (.inl hbefore))
      · exact hfresh.2
    · exact hold q (hcounts ▸ hq)
  · intro q hq
    obtain ⟨c, hc, hzero⟩ := h.closing q hq
    rcases withServer_cases hgo q with ⟨hbefore, _, _⟩ | ⟨hfresh, _, _⟩ | ⟨_, hcounts⟩
    · exact absurd hbefore (h.unused hq).2
    · exact absurd (h.known q (Option.ne_none_iff_exists'.mpr ⟨c, hc⟩)) (Nat.not_lt.mpr hfresh)
    · exact ⟨c, hcounts.trans hc, hzero⟩

theorem refers_setLastPacketTime (s : PeerLifetimes ι) (p q : UdpPeer ι) :
    (s.setLastPacketTime p).server.server.Refers q ↔ s.server.server.Refers q := by
  cases hbacklog : s.server.server.peersBacklog with
  | none => simp [Refers, setLastPacketTime, hbacklog]
  | some r => simp [Refers, setLastPacketTime, hbacklog, stamp]

theorem Inv.setLastPacketTime (h : Inv s) (p : UdpPeer ι) : Inv (s.setLastPacketTime p) where
  orderly := by
    refine ⟨fun r hr => ?_, fun q hq hnone => ?_⟩
    · obtain ⟨r, hr', rfl⟩ := Option.map_eq_some_iff.mp hr
      obtain ⟨hsound, hstage⟩ := h.orderly.backlog r hr'
      exact ⟨stamp_sound hsound p, hstage.of_frame rfl rfl⟩
    · exact h.orderly.tracking q hq (Option.map_eq_none_iff.mp hnone)
  sound.accounted q c hc := by
    rw [decide_eq_decide.mpr (refers_setLastPacketTime s p q)]
    exact h.sound.accounted q c hc
  sound.exist q hq := h.sound.exist q (hq.imp (refers_setLastPacketTime s p q).mp id)
  sound.outlast := h.sound.outlast
  known := h.known
  closing := h.closing

/-! ## The sends -/

variable {index : Nat} {request : SendRequest ι}

/-- A step that changes the references and the sends of some peers, but not of those that are
about to be deleted. -/
theorem Inv.of_server_eq (h : Inv s) (hserver : s'.server = s.server)
    (hclosing : s'.closing = s.closing) (hsame : ∀ q, s'.counts q = none ↔ s.counts q = none)
    (hkept : ∀ q, s.closing q = true → s'.counts q = s.counts q)
    (haccounted : ∀ q, ∀ c ∈ s'.counts q,
      c = .due (s'.sendsInFlight q) (s.server.server.Refers q))
    (hmentions : ∀ q, s'.Mentions q → s.counts q ≠ none)
    (houtlast : ∀ q ∈ s'.scheduled, s.closing q.1 = false) : Inv s' where
  orderly := hserver ▸ h.orderly
  sound.accounted q c hc := by
    rw [hserver]
    exact haccounted q c hc
  sound.exist q hq := by
    rw [hserver] at hq
    rw [Ne, hsame]
    exact hq.elim (fun hrefers => h.sound.exist q (.inl hrefers)) (hmentions q)
  sound.outlast := by rwa [hclosing]
  known q hq := by
    rw [hserver]
    exact h.known q fun hnone => hq ((hsame q).mpr hnone)
  closing q hq := by
    rw [hclosing] at hq
    rw [hkept q hq]
    exact h.closing q hq

theorem Inv.of_frame (h : Inv s) (hserver : s'.server = s.server) (hcounts : s'.counts = s.counts)
    (hclosing : s'.closing = s.closing) (hsends : ∀ q, s'.sendsInFlight q = s.sendsInFlight q)
    (hmentions : ∀ q, s'.Mentions q → s.counts q ≠ none)
    (houtlast : ∀ q ∈ s'.scheduled, s.closing q.1 = false) : Inv s' := by
  refine h.of_server_eq hserver hclosing (fun q => by rw [hcounts]) (fun q _ => by rw [hcounts])
    (fun q c hc => ?_) hmentions houtlast
  rw [hsends]
  exact h.sound.accounted q c (hcounts ▸ hc)

/-- A reference of one peer is taken or given up together with a send. -/
theorem Inv.recount (h : Inv s) {f : RefCounted → RefCounted} (hserver : s'.server = s.server)
    (hcounts : s'.counts = Function.update s.counts p ((s.counts p).map f))
    (hclosing : s'.closing = s.closing) (hscheduled : s'.scheduled = s.scheduled)
    (hused : s.closing p = false)
    (hdue : ∀ c ∈ s.counts p, f c = .due (s'.sendsInFlight p) (s.server.server.Refers p))
    (hsends : ∀ q, q ≠ p → s'.sendsInFlight q = s.sendsInFlight q)
    (hmentions : ∀ q, s'.Mentions q → s.counts q ≠ none) : Inv s' := by
  have hself : s'.counts p = (s.counts p).map f := by rw [hcounts, Function.update_self]
  have hother {q : UdpPeer ι} (hq : q ≠ p) : s'.counts q = s.counts q := by
    rw [hcounts, Function.update_of_ne hq]
  refine h.of_server_eq hserver hclosing (fun q => ?_) (fun q hq => hother ?_) (fun q c hc => ?_)
    hmentions (hscheduled ▸ h.sound.outlast)
  · by_cases hq : q = p
    · rw [hq, hself, Option.map_eq_none_iff]
    · rw [hother hq]
  · rintro rfl
    cases hused.symm.trans hq
  · by_cases hq : q = p
    · subst hq
      obtain ⟨c, hcount, rfl⟩ := Option.map_eq_some_iff.mp (hself.symm.trans hc)
      exact hdue c hcount
    · rw [hsends q hq]
      exact h.sound.accounted q c (hother hq ▸ hc)

theorem Inv.scheduleSendError (h : Inv s) (hp : s.counts p ≠ none) {callback : Bool}
    (htimely : callback = true → s.closing p = false) (error : Error) :
    Inv (s.scheduleSendError p callback error) := by
  rw [PeerLifetimes.scheduleSendError]
  split
  next hcallback =>
      refine h.of_frame rfl rfl rfl (fun _ => rfl)
        (fun q => h.exist_of_mentions hp (by simp only [Mentions, List.mem_append]; grind))
        fun q hq => ?_
      rcases List.mem_append.mp hq with hq | hq
      · exact h.sound.outlast q hq
      · cases List.mem_singleton.mp hq
        exact htimely hcallback
  next => exact h

theorem sendsInFlight_accept (s : PeerLifetimes ι) (p q : UdpPeer ι) (callback : Bool) :
    ({ s.ref p with inFlight := s.inFlight ++ [⟨p, callback⟩] } : PeerLifetimes ι).sendsInFlight q =
      s.sendsInFlight q + if p = q then 1 else 0 := by
  simp only [sendsInFlight, ref, List.countP_append, List.countP_singleton, decide_eq_true_eq]
  omega

theorem Inv.accept (h : Inv s) (hp : s.counts p ≠ none)
    (hrefs : ∀ c ∈ s.counts p, c.refCounter ≠ 0) (callback : Bool) :
    Inv { s.ref p with inFlight := s.inFlight ++ [⟨p, callback⟩] } := by
  have hused : s.closing p = false := by
    refine eq_false_of_ne_true fun hclosing => ?_
    obtain ⟨c, hc, hzero⟩ := h.closing p hclosing
    exact hrefs c hc hzero
  refine h.recount (p := p) (f := RefCounted.ref) rfl rfl rfl rfl hused (fun c hc => ?_)
    (fun q hq => ?_) fun q => h.exist_of_mentions hp (by grind [Mentions, PeerLifetimes.ref])
  · have hnonzero := hrefs c hc
    rw [h.sound.accounted p c hc] at hnonzero ⊢
    rw [RefCounted.ref_due hnonzero, sendsInFlight_accept, if_pos rfl]
  · rw [sendsInFlight_accept, if_neg (Ne.symm hq), Nat.add_zero]

theorem Inv.sendData (h : Inv s) (hp : s.counts p ≠ none) {size : UInt32} {callback : Bool}
    {uvSend : Error} (htimely : s.Timely (.send p size callback uvSend)) :
    Inv (s.sendData p size callback uvSend) := by
  obtain ⟨haccepts, hrefuses⟩ := htimely
  rw [PeerLifetimes.sendData]
  split
  next hsize => exact h.scheduleSendError hp (hrefuses (.inl hsize)) _
  next hsize =>
      split
      next hclosed => exact h.scheduleSendError hp (hrefuses (.inr (by simpa using hclosed))) _
      next hopen =>
          have hstamped := h.setLastPacketTime p
          dsimp only
          split
          next =>
              split
              next =>
                  refine hstamped.of_frame rfl rfl rfl (fun q => ?_)
                    (fun q => hstamped.exist_of_mentions hp (by grind [Mentions]))
                    hstamped.sound.outlast
                  simp [sendsInFlight]
              next => exact hstamped
          next haccepted =>
              refine hstamped.accept hp (haccepts ⟨hsize, ?_, ?_⟩) callback
              · simpa using hopen
              · simpa using haccepted

/-- The request that completes is no longer queued, and mentions its peer no less. -/
theorem countP_eraseIdx (hrequest : s.inFlight[index]? = some request) (q : UdpPeer ι) :
    (s.inFlight.eraseIdx index).countP (·.peer = q) + (if request.peer = q then 1 else 0) =
      s.inFlight.countP (·.peer = q) := by
  obtain ⟨hlt, rfl⟩ := List.getElem?_eq_some_iff.mp hrequest
  rw [← List.Perm.countP_eq _ (List.getElem_cons_eraseIdx_perm hlt), List.countP_cons]
  simp only [decide_eq_true_eq]

theorem Inv.onSend (h : Inv s) (hrequest : s.inFlight[index]? = some request) (status : Error) :
    Inv (s.onSend index request status) := by
  have hp : s.counts request.peer ≠ none :=
    h.sound.exist _ (.inr (.inl ⟨request, List.mem_of_getElem? hrequest, rfl⟩))
  have hcount := countP_eraseIdx hrequest
  rw [PeerLifetimes.onSend]
  dsimp only
  split
  next =>
      refine h.of_frame rfl rfl rfl (fun q => ?_)
        (fun q => h.exist_of_mentions hp (by grind [Mentions, List.mem_of_mem_eraseIdx]))
        h.sound.outlast
      have hcount := hcount q
      simp only [sendsInFlight, List.countP_cons, and_true, decide_eq_true_eq]
      omega
  next =>
      have hself := hcount request.peer
      rw [if_pos rfl] at hself
      refine h.recount (p := request.peer) (f := RefCounted.unref) rfl rfl rfl rfl
        (h.not_closing (by rw [sendsInFlight, ← hself]; omega)) (fun c hc => ?_) (fun q hq => ?_)
        fun q => h.exist_of_mentions hp
          (by grind [Mentions, List.mem_of_mem_eraseIdx, PeerLifetimes.unref])
      · rw [h.sound.accounted _ c hc, sendsInFlight, ← hself, Nat.add_right_comm,
          RefCounted.unref_due_send]
        rfl
      · have hcount := hcount q
        rw [if_neg (Ne.symm hq)] at hcount
        simp only [sendsInFlight, unref]
        omega

theorem Inv.onIdle (h : Inv s) (hdue : s.due = []) : Inv s.onIdle := by
  refine ⟨h.orderly, ⟨h.sound.accounted, fun q hq => h.sound.exist q ?_, ?_⟩, h.known, ?_⟩
  · refine hq.imp_right fun hmention => ?_
    rw [Mentions, hdue, List.append_nil]
    exact hmention
  · intro q hq
    cases hq
  · intro q hq
    obtain ⟨c, hc, hremovals⟩ := of_decide_eq_true hq
    refine ⟨c, hc, ?_⟩
    rw [h.sound.accounted q c hc] at hremovals ⊢
    have hnone : s.sendsInFlight q = 0 ∧ ¬ s.server.server.Refers q := by
      simpa [RefCounted.due] using hremovals
    simp [RefCounted.due, hnone]

theorem Inv.runScheduled (h : Inv s) {error : Error} {rest : List (UdpPeer ι × Error)}
    (hdue : s.due = (p, error) :: rest) :
    Inv { s with due := rest, inside := ⟨p, .refused, error⟩ :: s.inside } := by
  have hp : s.counts p ≠ none :=
    h.sound.exist p (.inr (.inr (.inl ⟨(p, error), by simp [hdue], rfl⟩)))
  refine h.of_frame rfl rfl rfl (fun q => ?_)
    (fun q => h.exist_of_mentions hp (by simp only [Mentions, hdue, List.mem_append]; grind))
    h.sound.outlast
  simp [sendsInFlight]

theorem Inv.endTurn (h : Inv s) (hinside : s.inside = []) (hdue : s.due = []) : Inv s.endTurn := by
  have hcounts {q : UdpPeer ι} (hq : s.closing q = false) : s.endTurn.counts q = s.counts q :=
    if_neg (by simp [hq])
  have hsome {q : UdpPeer ι} {c : RefCounted} (hc : c ∈ s.endTurn.counts q) : c ∈ s.counts q := by
    by_cases hq : s.closing q = true
    · have hnone : s.endTurn.counts q = none := if_pos hq
      cases hnone.symm.trans hc
    · rwa [hcounts (eq_false_of_ne_true hq)] at hc
  refine ⟨h.orderly, ⟨fun q c hc => h.sound.accounted q c (hsome hc), fun q hq => ?_, ?_⟩, ?_, ?_⟩
  · have hopen : s.closing q = false := by
      refine eq_false_of_ne_true fun hclosing => ?_
      obtain ⟨hnone, hrefers⟩ := h.unused hclosing
      rcases hq with hq | ⟨e, he, rfl⟩ | ⟨e, he, rfl⟩ | ⟨e, he, _⟩
      · exact hrefers hq
      · have hpos : 0 < s.inFlight.countP (·.peer = e.peer) :=
          List.countP_pos_iff.mpr ⟨e, he, by simp⟩
        rw [sendsInFlight] at hnone
        omega
      · rw [PeerLifetimes.endTurn, hdue, List.append_nil] at he
        cases (h.sound.outlast e he).symm.trans hclosing
      · rw [PeerLifetimes.endTurn, hinside] at he
        cases he
    rw [hcounts hopen]
    exact h.sound.exist q hq
  · intro q _
    rfl
  · intro q hq
    obtain ⟨c, hc⟩ := Option.ne_none_iff_exists'.mp hq
    exact h.known q (Option.ne_none_iff_exists'.mpr ⟨c, hsome hc⟩)
  · intro q hq
    cases hq

theorem Inv.leaveSend (h : Inv s) {rest : List (SendCallback ι)}
    (hinside : s.inside = call :: rest) : Inv (s.leaveSend call rest) := by
  have hmentions : ∀ q, ({ s with inside := rest } : PeerLifetimes ι).Mentions q →
      s.counts q ≠ none := by
    refine fun q hq => h.sound.exist q (.inr ?_)
    simp only [Mentions, hinside] at hq ⊢
    grind
  have hcount : ∀ q, s.sendsInFlight q =
      ({ s with inside := rest } : PeerLifetimes ι).sendsInFlight q +
        if call.peer = q ∧ call.outcome = .completed then 1 else 0 := by
    intro q
    rw [sendsInFlight, hinside, List.countP_cons, ← Nat.add_assoc]
    simp only [decide_eq_true_eq]
    rfl
  rw [PeerLifetimes.leaveSend]
  split
  next hcompleted =>
      have hself := hcount call.peer
      rw [if_pos ⟨rfl, hcompleted⟩] at hself
      refine h.recount (p := call.peer) (f := RefCounted.unref) rfl rfl rfl rfl
        (h.not_closing (by omega)) (fun c hc => ?_) (fun q hq => ?_) hmentions
      · rw [h.sound.accounted _ c hc, hself, RefCounted.unref_due_send]
        rfl
      · rw [hcount q, if_neg fun hsame => hq hsame.1.symm]
        rfl
  next hfailed =>
      refine h.of_frame rfl rfl rfl (fun q => ?_) hmentions h.sound.outlast
      rw [hcount q, if_neg fun hsame => by simp [hfailed] at hsame]
      rfl
  next hrefused =>
      refine h.of_frame rfl rfl rfl (fun q => ?_) hmentions h.sound.outlast
      rw [hcount q, if_neg fun hsame => by simp [hrefused] at hsame]
      rfl

/-! ## Runs -/

theorem inv_empty : Inv ({} : PeerLifetimes ι) where
  orderly := ⟨fun _ hr => (by cases hr), fun _ hq => (by cases hq)⟩
  sound.accounted _ _ hc := by cases hc
  sound.exist q hq := by simp [Refers, Mentions] at hq
  sound.outlast _ hq := by cases hq
  known _ hq := absurd rfl hq
  closing _ hq := by cases hq

theorem step_inv (s : PeerLifetimes ι) (e : Event ι) (s' : PeerLifetimes ι) (h : Inv s)
    (htimely : s.Timely e) (hstep : s.step e = some s') : Inv s' := by
  cases e with
  | server event =>
      obtain ⟨hlets, server, hserver, rfl⟩ := by simpa [step] using hstep
      obtain ⟨v, hv, rfl⟩ := Option.map_eq_some_iff.mp hserver
      refine h.withServer (step_next h.orderly (fun p hp => ?_) hv)
      rw [hp] at hlets
      cases hlets
  | start call =>
      obtain ⟨hbetween, rfl⟩ := by simpa [step] using hstep
      exact h.withServer (NamedUdpServer.start_next h.orderly hbetween call)
  | close withCallback =>
      obtain ⟨_, rfl⟩ := by simpa [step] using hstep
      exact h.withServer (NamedUdpServer.close_next h.orderly withCallback)
  | onClose =>
      obtain ⟨_, server, hserver, rfl⟩ := by simpa [step] using hstep
      obtain ⟨_, rfl⟩ := by simpa [NamedUdpServer.step] using hserver
      exact h.withServer (NamedUdpServer.onClose_next h.orderly)
  | closeCallbackReturns =>
      obtain ⟨⟨_, hbetween⟩, server, hserver, rfl⟩ := by simpa [step] using hstep
      obtain ⟨_, rfl⟩ := by simpa [NamedUdpServer.step] using hserver
      exact h.withServer (NamedUdpServer.closeCallbackReturns_next hbetween)
  | closePeer p =>
      obtain ⟨⟨_, _, hcloses⟩, v, hv, rfl⟩ := by simpa [step] using hstep
      have hnext : Inv (s.withServer { s.server with server := v }) :=
        h.withServer (closePeer_next h.orderly hcloses hv)
      exact ⟨hnext.orderly, ⟨hnext.sound.accounted, hnext.sound.exist, hnext.sound.outlast⟩,
        hnext.known, hnext.closing⟩
  | send p size callback uvSend =>
      obtain ⟨⟨_, huse⟩, rfl⟩ := by simpa [step] using hstep
      exact h.sendData (h.mayUse huse) htimely
  | onSend index status =>
      obtain ⟨_, request, hrequest, rfl⟩ := by simpa [step] using hstep
      exact h.onSend hrequest status
  | onIdle =>
      obtain ⟨⟨_, _, hdue⟩, rfl⟩ := by simpa [step] using hstep
      exact h.onIdle hdue
  | runScheduled =>
      rw [step] at hstep
      split at hstep
      next => cases hstep
      next p error rest hdue =>
          obtain ⟨_, rfl⟩ := by simpa using hstep
          exact h.runScheduled hdue
  | endTurn =>
      obtain ⟨⟨hresting, _, hdue⟩, rfl⟩ := by simpa [step] using hstep
      exact h.endTurn (List.isEmpty_iff.mp hresting.1) hdue
  | leaveSend =>
      rw [step] at hstep
      split at hstep
      next => cases hstep
      next call rest hinside =>
          cases hstep
          exact h.leaveSend hinside

/-- The removal of the peer was scheduled, and now a send is in flight. -/
theorem not_accounted_of_late (h : Inv s) {size : UInt32} {uvSend : Error} {c : RefCounted}
    (haccepts : s.Accepts p size uvSend) (hc : c ∈ s.counts p) (hzero : c.refCounter = 0)
    (callback : Bool) : ¬ (s.sendData p size callback uvSend).Accounted := by
  obtain ⟨hsize, hopen, haccepted⟩ := haccepts
  intro haccounted
  have hstamped := h.setLastPacketTime p
  have hsent : s.sendData p size callback uvSend =
      { (s.setLastPacketTime p).ref p with
        inFlight := (s.setLastPacketTime p).inFlight ++ [⟨p, callback⟩] } := by
    simp [sendData, hsize, hopen, haccepted]
  have hcount : (s.sendData p size callback uvSend).counts p = some c.ref := by
    rw [hsent]
    change Function.update s.counts p _ p = _
    rw [Function.update_self]
    exact congrArg (Option.map RefCounted.ref) hc
  have hdue := haccounted p c.ref hcount
  rw [hsent, sendsInFlight_accept, if_pos rfl] at hdue
  change c.ref = .due _ ((s.setLastPacketTime p).server.server.Refers p) at hdue
  rw [hstamped.sound.accounted p c hc] at hzero hdue
  exact RefCounted.ref_due_ne hzero hdue

theorem not_sound_of_late {e : Event ι} (h : Inv s) (hlate : ¬ s.Timely e)
    (hstep : s.step e = some s') : ¬ s'.Sound := by
  cases e with
  | send p size callback uvSend =>
      obtain ⟨_, rfl⟩ := by simpa [step] using hstep
      intro hsound
      refine hlate ⟨fun haccepts c hc hzero => ?_, fun hrefuses hcallback => ?_⟩
      · exact not_accounted_of_late h haccepts hc hzero callback hsound.accounted
      · -- The callback is scheduled for the next turn.
        subst hcallback
        have hsent : ∃ error, s.sendData p size true uvSend = s.scheduleSendError p true error := by
          rw [PeerLifetimes.sendData]
          split
          · exact ⟨_, rfl⟩
          · rename_i hsize
            rw [if_pos (by simpa using hrefuses.resolve_left hsize)]
            exact ⟨_, rfl⟩
        obtain ⟨error, hsent⟩ := hsent
        rw [hsent] at hsound
        exact hsound.outlast (p, error) (List.mem_append_right _ (List.mem_singleton.mpr rfl))
  | _ => exact absurd trivial hlate

/-- In a run of a server with its peers, every peer has one reference for each of its sends in
flight and one while the server refers to it, and `schedule_removal` is called for it once and
when the last of them goes, and no callback is called for a peer that was deleted, exactly if no
send is accepted from a peer that has no references or refused with a callback from one that is
about to be deleted. -/
theorem peer_lifetime_iff {run : List (Event ι)} {s : PeerLifetimes ι}
    (hrun : exec step {} run = some s) :
    Throughout step Sound {} run ↔ Along step Timely {} run :=
  throughout_iff_along (fun _ h => h.sound) step_inv
    (fun _ _ _ h hlate hstep => not_sound_of_late h hlate hstep) inv_empty hrun

/-- A send of no data in the receive callback of an untracked peer. Its callback runs when the
peer has been let go of, and sends. -/
def lateSend (size : UInt32) : List (Event Nat) :=
  [.start (.untracked { dataReceiveCallback := some 1 }), .server (.datagram 7 0),
    .send ⟨7, 0⟩ 0 true {}, .server .leave, .onIdle, .runScheduled, .send ⟨7, 0⟩ size true {},
    .leaveSend, .endTurn]

/-- The peer is deleted while its send is in flight. If that send has no data either, its callback
is called for a deleted peer. -/
theorem late_send_deleted :
    (∃ s ∈ exec step ({} : PeerLifetimes Nat) ((lateSend 1).take 7),
      s.sendsInFlight ⟨7, 0⟩ = 1 ∧ s.counts ⟨7, 0⟩ = some { refCounter := 1, removals := 1 }) ∧
    (∃ s ∈ exec step ({} : PeerLifetimes Nat) (lateSend 1),
      s.sendsInFlight ⟨7, 0⟩ = 1 ∧ s.counts ⟨7, 0⟩ = none) ∧
    ∃ s ∈ exec step ({} : PeerLifetimes Nat) (lateSend 0 ++ [.onIdle, .runScheduled]),
      s.inside.map SendCallback.peer = [⟨7, 0⟩] ∧ s.counts ⟨7, 0⟩ = none := by
  decide +kernel

def trackingArgs : NamedTrackingArgs where
  timeoutMs := 100
  dataReceiveCallback := some 1
  newPeerCallback := some 2
  peerTimeoutCallback := some 3

/-- A tracked peer that sends in the new-peer callback and in the receive callback, and closes
itself in the callback of the first send. -/
def closesInSend : List (Event Nat) :=
  [.start (.tracked trackingArgs), .server (.datagram 7 0), .send ⟨7, 0⟩ 3 true {},
    .server .leave, .send ⟨7, 0⟩ 5 false {}, .server .leave, .onSend 0 {},
    .send ⟨7, 0⟩ 1 true (.ofCode .ioError), .leaveSend, .closePeer ⟨7, 0⟩,
    .send ⟨7, 0⟩ 2 true {}, .leaveSend, .onSend 0 {}, .onIdle, .runScheduled, .leaveSend]

theorem peer_lifetime_iff_closesInSend :
    Throughout step Sound ({} : PeerLifetimes Nat) (closesInSend ++ [.endTurn]) ∧
      (∃ s ∈ exec step ({} : PeerLifetimes Nat) closesInSend,
        s.counts ⟨7, 0⟩ = some { refCounter := 0, removals := 1 }) ∧
      ∃ s ∈ exec step ({} : PeerLifetimes Nat) (closesInSend ++ [.endTurn]),
        s.counts ⟨7, 0⟩ = none := by
  have hrun : ∃ s ∈ exec step ({} : PeerLifetimes Nat) (closesInSend ++ [.endTurn]),
      s.counts ⟨7, 0⟩ = none := by decide +kernel
  obtain ⟨s, hs, hcount⟩ := hrun
  exact ⟨(peer_lifetime_iff hs).mpr (by decide +kernel), by decide +kernel, s, hs, hcount⟩

end PeerLifetimes

end TarmIo.Net
