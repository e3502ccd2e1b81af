import TarmIo.Net.Udp.UdpServer

/-!
# Starting a server again after `close`

The completion of `close` resets the handle and the containers only when it was given a
callback, and it clears the containers after the callback has returned. The handle of a server that
was closed without a callback still counts as initialised: a new `bind` does not initialise it, so
`is_open` stays false and `close` does nothing. The backlog of a server that is started in the
callback is gone when the completion ends.
-/

namespace TarmIo.Net.UdpServer

open BacklogWithTimeout

variable {ι : Type*}

/-- `close(callback)` and its completion. -/
def closed (s : UdpServer ι) (callback : Option (List ServerCall)) : UdpServer ι :=
  (s.close callback).onClose

/-- The part of the state that a new start depends on. -/
structure Footing (ι : Type*) where
  handleInited : Bool
  peers : ι → Option (UdpPeer ι)
  inactivePeers : ι → Bool
  hasBacklog : Bool
  connectionInProgress : Bool

def footing (s : UdpServer ι) : Footing ι where
  handleInited := s.handle.inited
  peers := s.peers
  inactivePeers := s.inactivePeers
  hasBacklog := s.peersBacklog.isSome
  connectionInProgress := s.connectionInProgress

/-- The next `bind` initialises the handle, and nothing is left of the peers. -/
def cleanFooting : Footing ι where
  handleInited := false
  peers := fun _ => none
  inactivePeers := fun _ => false
  hasBacklog := false
  connectionInProgress := false

def inCloseCallback (s : UdpServer ι) (calls : List ServerCall) : UdpServer ι :=
  { s with
    closeCallback := some calls
    handle := s.handle.close.resetState
    connectionInProgress := false }

section Closed

variable {s : UdpServer ι} (hopen : s.isOpen = true)
include hopen

theorem closed_none : s.closed none =
    { s with closeCallback := none, handle := s.handle.close, connectionInProgress := false } := by
  rw [closed, close, if_pos hopen]
  rfl

theorem closed_some (calls : List ServerCall) : s.closed (some calls) =
    { calls.foldl call (s.inCloseCallback calls) with
      peers := fun _ => none
      inactivePeers := fun _ => false
      peersBacklog := none } := by
  rw [closed, close, if_pos hopen]
  rfl

/-- A callback that does nothing leaves a clean server. -/
theorem footing_closed_nothing : (s.closed (some [])).footing = cleanFooting := by
  rw [closed_some hopen]
  rfl

/-- Without a callback the handle stays as it is, closed and taken for initialised. -/
theorem closed_none_inited : (s.closed none).handle.inited = true := by
  rw [closed_none hopen]
  exact (Bool.and_eq_true_iff.mp hopen).1

theorem closed_some_peersBacklog (calls : List ServerCall) :
    (s.closed (some calls)).peersBacklog = none := by
  rw [closed_some hopen]

end Closed

/-! ## What is expected of a restart -/

def StartsTracking (s : UdpServer ι) (calls : List ServerCall) : Prop :=
  ∃ before args after, calls = before ++ .startReceiveTracked args :: after ∧
    (startReceiveTracked args (before.foldl call s)).1.isError = false

variable [DecidableEq ι]

/-- The backlog is installed, and a packet that is delivered comes from a peer of the table. -/
def TracksPeers (s : UdpServer ι) : Prop :=
  s.peersBacklog.isSome = true ∧
    ∀ id addedAt s', s.hasDataCallback = true → s.inactivePeers id = false →
      s.onDataReceived id addedAt = some s' → (s'.peers id).isSome = true

/-- Closed without a callback the server is left as by a callback that does nothing; a server
that is started with peer tracking in the callback tracks its peers afterwards. -/
def Restartable (s : UdpServer ι) : Option (List ServerCall) → Prop
  | none => (s.closed none).footing = (s.closed (some [])).footing
  | some calls =>
      (s.inCloseCallback calls).StartsTracking calls → (s.closed (some calls)).TracksPeers

/-- The server can be started again as expected exactly after a close with a callback that does
not itself start it with peer tracking. -/
theorem restart_after_close_iff (s : UdpServer ι) (hopen : s.isOpen = true)
    (callback : Option (List ServerCall)) :
    s.Restartable callback ↔
      ∃ calls, callback = some calls ∧ ¬ (s.inCloseCallback calls).StartsTracking calls := by
  cases callback with
  | none =>
      refine iff_of_false ?_ nofun
      intro hsame
      have hinited := congrArg Footing.handleInited hsame
      rw [footing_closed_nothing hopen] at hinited
      cases hinited.symm.trans (closed_none_inited hopen)
  | some calls =>
      constructor
      · intro hrestart
        refine ⟨calls, rfl, ?_⟩
        intro hstarts
        have hinstalled := (hrestart hstarts).1
        rw [closed_some_peersBacklog hopen calls] at hinstalled
        cases hinstalled
      · rintro ⟨calls, ⟨⟩, hnot⟩ hstarts
        exact absurd hstarts hnot

/-- A server with peer tracking, closed without a callback and with one that starts it again. -/
theorem restart_fails :
    ¬ (started Nat { timeoutMs := 500 }).Restartable none ∧
      ¬ (started Nat { timeoutMs := 500 }).Restartable
          (some [.startReceiveTracked { timeoutMs := 500 }]) := by
  constructor
  · intro hsame
    have hinited := congrArg Footing.handleInited hsame
    revert hinited
    decide
  · intro hrestart
    have htracks := hrestart ⟨[], { timeoutMs := 500 }, [], rfl, by decide⟩
    exact absurd htracks.1 (by decide)

/-- A callback that starts the server without peer tracking. -/
theorem restart_after_close_iff_untracked :
    (started Nat { timeoutMs := 500 }).Restartable (some [.startReceive {}]) := by
  refine (restart_after_close_iff _ (by decide) _).mpr ⟨_, rfl, ?_⟩
  rintro ⟨before, args, after, hsplit, _⟩
  cases before with
  | nil => cases hsplit
  | cons _ before => simp at hsplit

end TarmIo.Net.UdpServer
