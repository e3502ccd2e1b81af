import TarmIo.Net.Dtls.DtlsServer

/-!
# Who keeps a peer alive

The reference count of a `UdpPeer` is the number of its sends that are on their way, with one more
as long as `m_peers` or the backlog has a shared pointer to it. So a client is not deleted while its
peer is in `m_peers`. A peer that is not there any more does not come back: the only peers that
enter the table are new ones.
-/

namespace TarmIo.Net

open Foundation

namespace UdpServer

variable {ι : Type*} {u u' : UdpServer ι}

/-- Only new peers enter the table. -/
structure Aged (u u' : UdpServer ι) : Prop where
  created : u.created ≤ u'.created
  old : ∀ p, u'.peers p.id = some p → u.peers p.id = some p ∨ u.created ≤ p.serial

theorem Aged.of_eq (hpeers : u'.peers = u.peers) (hcreated : u'.created = u.created) : Aged u u' :=
  ⟨hcreated.ge, fun _ hp => .inl (hpeers ▸ hp)⟩

variable [DecidableEq ι] {id : ι} {p : UdpPeer ι} {addedAt : UInt64} {e : Event ι}

theorem track_frame {c : BacklogWithTimeout.Call (UdpPeer ι)} (h : u.track c = some u') :
    ∃ r, u' = { u with peersBacklog := some r } := by
  simp only [track, Option.bind_eq_some_iff, Option.map_eq_some_iff] at h
  obtain ⟨r, -, r', -, rfl⟩ := h
  exact ⟨r', rfl⟩

structure Erases (u u' : UdpServer ι) (id : ι) : Prop where
  created : u'.created = u.created
  peers : u'.peers = u.peers ∨ u'.peers = Function.update u.peers id none

theorem Erases.aged (h : Erases u u' id) : Aged u u' := by
  refine ⟨h.created.ge, fun p hp => .inl ?_⟩
  rcases h.peers with heq | heq
  · rwa [heq] at hp
  · rw [heq] at hp
    by_cases hid : p.id = id
    · rw [hid, Function.update_self] at hp
      cases hp
    · rwa [Function.update_of_ne hid] at hp

theorem Erases.kept (h : Erases u u' id) (hp : u.peers p.id = some p) (hid : p.id ≠ id) :
    u'.peers p.id = some p := by
  rcases h.peers with heq | heq
  · rwa [heq]
  · rwa [heq, Function.update_of_ne hid]

theorem closePeer_spec (h : u.closePeer p = some u') :
    Erases u u' p.id ∧ u'.running = u.running ∧ u'.handle = u.handle := by
  unfold closePeer at h
  split at h
  · cases h
    exact ⟨⟨rfl, .inl rfl⟩, rfl, rfl⟩
  · split at h
    · cases h
      exact ⟨⟨rfl, .inl rfl⟩, rfl, rfl⟩
    · obtain ⟨t, ht, rfl⟩ := Option.map_eq_some_iff.mp h
      obtain ⟨r, rfl⟩ := track_frame ht
      exact ⟨⟨rfl, .inr rfl⟩, rfl, rfl⟩

theorem announce_spec (u : UdpServer ι) (p : UdpPeer ι) :
    (u.announce p).peers = u.peers ∧ (u.announce p).created = u.created ∧
      (u.announce p).handle = u.handle ∧
      ((u.announce p).running = .newPeer p ∨ (u.announce p).running = .data p) := by
  unfold announce
  split
  · exact ⟨rfl, rfl, rfl, .inl rfl⟩
  · exact ⟨rfl, rfl, rfl, .inr rfl⟩

/-- A peer that is new is in the table, and announced unless it times out at once. -/
theorem register_spec {r : BacklogWithTimeout.Reentrant (UdpPeer ι)}
    (h : u.register r p addedAt = some u') :
    u'.peers = Function.update u.peers p.id (some p) ∧ u'.created = u.created + 1 ∧
      u'.handle = u.handle ∧
      (u'.running = .newPeer p ∨ u'.running = .data p ∨ ∃ it, u'.running = .timeoutInAdd p it) := by
  simp only [register, Option.bind_eq_some_iff, Option.map_eq_some_iff] at h
  obtain ⟨r₁, -, r₂, -, rfl⟩ := h
  split
  · exact ⟨rfl, rfl, rfl, .inr (.inr ⟨_, rfl⟩)⟩
  · obtain ⟨hpeers, hcreated, hhandle, hrun⟩ := announce_spec
      { u with
        peers := Function.update u.peers p.id (some p)
        peersBacklog := some r₂
        created := u.created + 1 } p
    exact ⟨hpeers, hcreated, hhandle, hrun.imp_right .inl⟩

/-- What a datagram does: nothing, a call for a known peer, or for a new one. -/
theorem datagram_spec (h : u.step (.datagram id addedAt) = some u') :
    u.handle.closing = false ∧ u'.handle = u.handle ∧
      (u'.peers = u.peers ∧ u.created ≤ u'.created ∧
          (u'.running = .idle ∨ ∃ p, u'.running = .data p) ∨
        ∃ p, u.created ≤ p.serial ∧ p.serial < u'.created ∧ u.peers p.id = none ∧
          u'.peers = Function.update u.peers p.id (some p) ∧ u.created ≤ u'.created ∧
          (u'.running = .newPeer p ∨ u'.running = .data p ∨
            ∃ it, u'.running = .timeoutInAdd p it)) := by
  simp only [step] at h
  split at h
  next hguard =>
    have hopen : u.handle.inited = true ∧ u.handle.closing = false := by
      simpa [isOpen, UdpHandle.isOpen] using hguard.2
    refine ⟨hopen.2, ?_⟩
    unfold onDataReceived at h
    split at h
    · cases h
      exact ⟨rfl, .inl ⟨rfl, le_rfl, .inl hguard.1.1⟩⟩
    · split at h
      · cases h
        exact ⟨rfl, .inl ⟨rfl, Nat.le_succ _, .inr ⟨_, rfl⟩⟩⟩
      · split at h
        · cases h
          exact ⟨rfl, .inl ⟨rfl, le_rfl, .inl hguard.1.1⟩⟩
        · split at h
          next p hp =>
            cases h
            exact ⟨rfl, .inl ⟨rfl, le_rfl, .inr ⟨p, rfl⟩⟩⟩
          next hnone =>
            obtain ⟨hpeers, hcreated, hhandle, hrun⟩ := register_spec h
            refine ⟨hhandle, .inr ⟨⟨id, u.created⟩, le_rfl, ?_, hnone, hpeers, ?_, hrun⟩⟩ <;>
              simp [hcreated]
  next => cases h

theorem visit_spec (h : u.step .visit = some u') :
    u.running = .idle ∧ u'.peers = u.peers ∧ u'.created = u.created ∧ u'.handle = u.handle ∧
      (u'.running = .idle ∨ ∃ p, u'.running = .timeout p (u.peers p.id)) := by
  simp only [step] at h
  split at h
  next hidle =>
    refine ⟨hidle, ?_⟩
    obtain ⟨r, -, hvisit⟩ := Option.bind_eq_some_iff.mp h
    obtain ⟨r', -, rfl⟩ := Option.map_eq_some_iff.mp hvisit
    split
    · exact ⟨rfl, rfl, rfl, .inl hidle⟩
    next p _ =>
      split
      · exact ⟨rfl, rfl, rfl, .inr ⟨p, rfl⟩⟩
      · exact ⟨rfl, rfl, rfl, .inl hidle⟩
  next => cases h

theorem eraseFound_spec (u : UdpServer ι) (p : UdpPeer ι) (it : Option (UdpPeer ι)) :
    Erases u (u.eraseFound p it) p.id ∧ (u.eraseFound p it).handle = u.handle ∧
      ∀ q, u.peers q.id = some q → it ≠ some q → (u.eraseFound p it).peers q.id = some q := by
  unfold eraseFound
  split
  · exact ⟨⟨rfl, .inl rfl⟩, rfl, fun _ hq _ => hq⟩
  · split
    next hfound =>
      refine ⟨⟨rfl, .inr rfl⟩, rfl, fun q hq hne => ?_⟩
      have hid : q.id ≠ p.id := by
        intro hid
        rw [hid, hfound] at hq
        exact hne hq
      dsimp only
      rwa [Function.update_of_ne hid]
    · exact ⟨⟨rfl, .inl rfl⟩, rfl, fun _ hq _ => hq⟩

/-- The handler goes on: a new peer gets its data, a peer that timed out is erased. -/
theorem leave_spec (h : u.step .leave = some u')
    (hannounced : ∀ p it, u.running ≠ .timeoutInAdd p it) :
    Aged u u' ∧ u'.created = u.created ∧ u'.handle = u.handle ∧
      (u'.running = .idle ∨ ∃ p, u'.running = .data p) ∧
      ∀ q, u.peers q.id = some q → (∀ p it, u.running = .timeout p it → it ≠ some q) →
        u'.peers q.id = some q := by
  simp only [step] at h
  split at h
  next => cases h
  next p hrun =>
    cases h
    exact ⟨.of_eq rfl rfl, rfl, rfl, .inr ⟨p, rfl⟩, fun _ hq _ => hq⟩
  next hrun =>
    cases h
    exact ⟨.of_eq rfl rfl, rfl, rfl, .inl rfl, fun _ hq _ => hq⟩
  next p it hrun =>
    obtain ⟨t, ht, rfl⟩ := Option.map_eq_some_iff.mp h
    obtain ⟨r, rfl⟩ := track_frame ht
    obtain ⟨herases, hhandle, hkept⟩ := eraseFound_spec { u with peersBacklog := some r } p it
    refine ⟨⟨herases.aged.created, herases.aged.old⟩, herases.created, hhandle, .inl rfl, ?_⟩
    exact fun q hq hne => hkept q hq (hne p it hrun)
  next p it hrun => exact absurd hrun (hannounced p it)

/-- Timers and the clock leave the table and the callback alone. -/
theorem tick_spec {u u' : UdpServer ι} {e : Event ι}
    (he : (∃ index, e = .onTimer index) ∨ (∃ id, e = .inactivityOver id) ∨
      ∃ clock, e = .advance clock)
    (h : u.step e = some u') :
    u'.peers = u.peers ∧ u'.created = u.created ∧ u'.running = u.running ∧
      u'.handle = u.handle := by
  rcases he with ⟨index, rfl⟩ | ⟨id, rfl⟩ | ⟨clock, rfl⟩
  · simp only [step] at h
    split at h
    · obtain ⟨r, rfl⟩ := track_frame h
      exact ⟨rfl, rfl, rfl, rfl⟩
    · cases h
  · simp only [step] at h
    split at h
    · cases h
      exact ⟨rfl, rfl, rfl, rfl⟩
    · cases h
  · simp only [step] at h
    obtain ⟨r, -, hr⟩ := Option.bind_eq_some_iff.mp h
    obtain ⟨r', rfl⟩ := track_frame hr
    exact ⟨rfl, rfl, rfl, rfl⟩

/-- The timers run between the callbacks. -/
theorem tick_idle (he : (∃ index, e = .onTimer index) ∨ ∃ id, e = .inactivityOver id)
    (h : u.step e = some u') : u.running = .idle := by
  rcases he with ⟨index, rfl⟩ | ⟨id, rfl⟩ <;> simp only [step] at h <;> split at h
  next hguard => exact hguard.1
  next => cases h
  next hguard => exact hguard.1.1
  next => cases h

omit [DecidableEq ι] in
theorem close_spec (u : UdpServer ι) (callback : Option (List ServerCall)) :
    (u.close callback).peers = u.peers ∧ (u.close callback).created = u.created ∧
      (u.close callback).running = u.running := by
  unfold close
  split <;> exact ⟨rfl, rfl, rfl⟩

omit [DecidableEq ι] in
theorem call_frame (u : UdpServer ι) (c : ServerCall) :
    (u.call c).created = u.created ∧ (u.call c).running = u.running := by
  cases c with
  | bind endpointDefined uv =>
      dsimp only [call]
      unfold UdpServer.bind
      repeat' split
      all_goals exact ⟨rfl, rfl⟩
  | startReceive args =>
      obtain ⟨handle, hasDataCallback, connectionInProgress, heq⟩ := startReceive_frame args u
      rw [call, heq]
      exact ⟨rfl, rfl⟩
  | startReceiveTracked args =>
      dsimp only [call]
      unfold startReceiveTracked
      split
      · exact ⟨rfl, rfl⟩
      · split
        · exact ⟨rfl, rfl⟩
        · obtain ⟨handle, hasDataCallback, connectionInProgress, heq⟩ :=
            startReceive_frame args.toReceiveArgs
              { u with
                hasNewPeerCallback := args.hasNewPeerCallback
                peersBacklog := some (.start args.timeoutMs args.now fun _ => 0) }
          rw [heq]
          exact ⟨rfl, rfl⟩

omit [DecidableEq ι] in
theorem calls_frame (u : UdpServer ι) (calls : List ServerCall) :
    (calls.foldl call u).created = u.created ∧ (calls.foldl call u).running = u.running := by
  induction calls generalizing u with
  | nil => exact ⟨rfl, rfl⟩
  | cons c calls ih =>
      obtain ⟨hcreated, hrun⟩ := call_frame u c
      obtain ⟨hcreated', hrun'⟩ := ih (u.call c)
      exact ⟨hcreated'.trans hcreated, hrun'.trans hrun⟩

omit [DecidableEq ι] in
/-- When the server is closed the table is cleared, if at all. -/
theorem onClose_spec (u : UdpServer ι) :
    u.onClose.created = u.created ∧ u.onClose.running = u.running ∧
      ∀ p, u.onClose.peers p.id = some p → u.peers p.id = some p := by
  unfold onClose
  split
  · exact ⟨rfl, rfl, fun _ hp => hp⟩
  next calls _ =>
    obtain ⟨hcreated, hrun⟩ := calls_frame
      { u with handle := u.handle.resetState, connectionInProgress := false } calls
    exact ⟨hcreated, hrun, fun _ hp => by cases hp⟩

end UdpServer

namespace DtlsConnectedClient

variable {c : DtlsConnectedClient} {n : Nat}

/-- With `unrefs` calls of `unref` still to come, the count is right, and a client whose peer is
owned is not removed. -/
structure Counted (unrefs : Nat) (c : DtlsConnectedClient) : Prop where
  refs : c.refCounter = c.sends.length + unrefs + c.shared.toNat
  kept : c.shared = true → c.removals = 0 ∧ c.deleted = false

theorem unref_spec (h : c.refCounter = n + 1) :
    c.unref.refCounter = n ∧ c.unref.sends = c.sends ∧ c.unref.shared = c.shared ∧
      c.unref.deleted = c.deleted ∧ (n ≠ 0 → c.unref.removals = c.removals) := by
  cases n with
  | zero => simp [unref, h]
  | succ n => simp [unref, h]

theorem Counted.unref (h : c.Counted (n + 1)) : c.unref.Counted n := by
  obtain ⟨hrefs, hsends, hshared, hdeleted, hremovals⟩ :=
    unref_spec (c := c) (n := c.sends.length + n + c.shared.toNat) (by rw [h.refs]; omega)
  constructor
  · rw [hrefs, hsends, hshared]
  · intro hs
    rw [hshared] at hs
    rw [hremovals (by simp [hs]), hdeleted]
    exact h.kept hs

theorem Counted.release (h : c.Counted n) (hs : c.shared = true) :
    c.release.Counted n ∧ c.release.shared = false := by
  obtain ⟨hrefs, hsends, hshared, -⟩ :=
    unref_spec (c := { c with shared := false }) (n := c.sends.length + n) (by simp [h.refs, hs])
  refine ⟨⟨?_, fun hs' => ?_⟩, hshared⟩
  · rw [DtlsConnectedClient.release, hrefs, hsends, hshared]
    rfl
  · cases hshared.symm.trans hs'

end DtlsConnectedClient

namespace DtlsServer

open Dtls

variable {ι : Type*} [DecidableEq ι] {p : UdpPeer ι} {s s' : DtlsServer ι}

variable {u : UdpServer ι} {e : UdpServer.Event ι} {answers : Answers}

/-- The calls of `unref` that a handler has still to make. -/
def unrefs (stack : List (StackFrame ι)) (p : UdpPeer ι) : Nat := stack.count (.unref p)

structure Sound (s : DtlsServer ι) : Prop where
  serials : ∀ p c, s.made p = some c → p.serial < s.udp.created
  announced : ∀ p it, s.udp.running ≠ .timeoutInAdd p it
  counted : ∀ p c, s.made p = some c → c.Counted (unrefs s.stack p)
  shared : ∀ p c, s.made p = some c → s.udp.peers p.id = some p → c.shared = true

@[simp] theorem made_onClient_self (s : DtlsServer ι) (p : UdpPeer ι)
    (f : DtlsConnectedClient → DtlsConnectedClient) :
    (s.onClient p f).made p = (s.made p).map f :=
  Function.update_self ..

theorem made_onClient_of_ne (s : DtlsServer ι) {p q : UdpPeer ι} (hq : q ≠ p)
    (f : DtlsConnectedClient → DtlsConnectedClient) : (s.onClient p f).made q = s.made q :=
  Function.update_of_ne hq ..

/-- What the loss of the last shared pointer leaves alone. -/
theorem made_withUdp {c : DtlsConnectedClient} (hc : s.made p = some c) :
    ∃ c', (s.withUdp u).made p = some c' ∧ c'.deleted = c.deleted ∧ c'.sends = c.sends ∧
      c'.peerClosed = c.peerClosed ∧ c'.handshakeState = c.handshakeState := by
  refine ⟨if c.shared && !owned u p then c.release else c, ?_, ?_⟩
  · simp only [withUdp, hc, Option.map_some]
  split
  · unfold DtlsConnectedClient.release DtlsConnectedClient.unref
    split <;> exact ⟨rfl, rfl, rfl, rfl⟩
  · exact ⟨rfl, rfl, rfl, rfl⟩

theorem isOpen_withUdp (hhandle : u.handle = s.udp.handle) :
    (s.withUdp u).isOpen p = s.isOpen p := by
  unfold isOpen
  cases hc : s.made p with
  | none => simp [withUdp, hc]
  | some c =>
      obtain ⟨c', hc', -, -, hclosed, hstate⟩ := made_withUdp (u := u) hc
      rw [hc', Option.any_some, Option.any_some, hclosed, hstate,
        show (s.withUdp u).udp.handle = _ from hhandle]

theorem udpStep_eq_some :
    s.udpStep e answers = some s' ↔
      s.stack = [] ∧ ∃ u, s.udp.step e = some u ∧ (s.withUdp u).entered answers = some s' := by
  unfold udpStep
  split <;> simp [*, Option.bind_eq_some_iff]

/-- A timer of the UDP server calls none of its callbacks. -/
theorem udpStep_tick (he : (∃ index, e = .onTimer index) ∨ ∃ id, e = .inactivityOver id)
    (hstep : s.udpStep e answers = some s') :
    ∃ u, s' = s.withUdp u ∧ u.peers = s.udp.peers ∧ u.created = s.udp.created ∧
      u.running = .idle ∧ u.handle = s.udp.handle := by
  obtain ⟨-, u, hu, hentered⟩ := udpStep_eq_some.mp hstep
  obtain ⟨hpeers, hcreated, hrun, hhandle⟩ := UdpServer.tick_spec (he.imp_right .inl) hu
  have hidle : u.running = .idle := hrun.trans (UdpServer.tick_idle he hu)
  rw [entered, show (s.withUdp u).udp.running = _ from hidle] at hentered
  cases hentered
  exact ⟨u, rfl, hpeers, hcreated, hidle, hhandle⟩

theorem step_close_eq_some {call : ShutdownCall} :
    s.step (.close p call) = some s' ↔
      (s.made p ≠ none ∧ s.isDeleted p = false) ∧ s.close p call = s' := by
  simp only [step]
  split <;> simp [*]

theorem step_serverClose_eq_some {order : List (UdpPeer ι)} :
    s.step (.serverClose order) = some s' ↔
      order.isPerm s.clients = true ∧ { s with clients := [] }.push (.closing order) = s' := by
  simp only [step]
  split <;> simp [*]

theorem step_send_eq_some {result : WriteResult} :
    s.step (.send p result) = some s' ↔
      (s.made p ≠ none ∧ s.isDeleted p = false) ∧ s.sendData p result = s' := by
  simp only [step]
  split <;> simp [*]

theorem step_sendDone_eq_some {callback : SendCallback} {status : Error} :
    s.step (.sendDone p callback status) = some s' ↔
      s.AtRest ∧ s.hasSend p callback = true ∧ s.onSend p callback status = s' := by
  simp only [step]
  split <;> simp_all

theorem step_removal_eq_some :
    s.step (.removal p) = some s' ↔
      s.AtRest ∧ ((s.made p).any fun c => decide (0 < c.removals)) = true ∧
        s.onRemoval p = s' := by
  simp only [step]
  split <;> simp_all

theorem step_serverClosed_eq_some :
    s.step .serverClosed = some s' ↔
      (s.AtRest ∧ s.udp.handle.inited = true ∧ s.udp.handle.closing = true) ∧
        s.withUdp s.udp.onClose = s' := by
  simp only [step]
  split <;> simp_all

theorem step_handshake_eq_some {call : HandshakeCall} :
    s.step (.handshake call) = some s' ↔
      ∃ p rest, s.stack = .handshaking p :: rest ∧
        { s with stack := rest }.afterSslDoHandshake p call = s' := by
  simp only [step]
  split
  next p rest hstack => simp [hstack]
  next hother =>
    refine ⟨fun h => (by cases h), ?_⟩
    rintro ⟨p, rest, hstack, -⟩
    exact absurd hstack (hother p rest)

theorem step_read_eq_some {result : ReadResult} :
    s.step (.read result) = some s' ↔
      ∃ p rest, s.stack = .reading p :: rest ∧ s.onRead p rest result = s' := by
  simp only [step]
  split
  next p rest hstack => simp [hstack]
  next hother =>
    refine ⟨fun h => (by cases h), ?_⟩
    rintro ⟨p, rest, hstack, -⟩
    exact absurd hstack (hother p rest)

def InSsl (s : DtlsServer ι) (p : UdpPeer ι) : Prop :=
  s.stack.head? = some (.handshaking p) ∨ s.stack.head? = some (.reading p)

theorem step_alert_eq_some {ret : Nat} :
    s.step (.alert ret) = some s' ↔ ∃ p, s.InSsl p ∧ s.sslStateCallback p ret = s' := by
  simp only [step, InSsl]
  split
  next p rest hstack => simp [hstack]
  next p rest hstack => simp [hstack]
  next hhandshaking hreading =>
    refine ⟨fun h => (by cases h), ?_⟩
    rintro ⟨p, htop | htop, -⟩ <;> obtain ⟨rest, hstack⟩ := List.head?_eq_some_iff.mp htop
    · exact absurd hstack (hhandshaking p rest)
    · exact absurd hstack (hreading p rest)

namespace Sound

variable {rest : List (StackFrame ι)}

variable {stack : List (StackFrame ι)} {frame : StackFrame ι}
  {f : DtlsConnectedClient → DtlsConnectedClient}

theorem of_stack (h : Sound s) (hcount : ∀ p, unrefs stack p = unrefs s.stack p) :
    Sound { s with stack := stack } where
  serials := h.serials
  announced := h.announced
  counted p c hc := by
    rw [hcount]
    exact h.counted p c hc
  shared := h.shared

theorem push (h : Sound s) (hframe : ∀ p, frame ≠ .unref p) : Sound (s.push frame) :=
  h.of_stack fun p => List.count_cons_of_ne (hframe p)

theorem pop (h : Sound s) (hstack : s.stack = frame :: rest) (hframe : ∀ p, frame ≠ .unref p) :
    Sound { s with stack := rest } :=
  h.of_stack fun p => by
    rw [hstack]
    exact (List.count_cons_of_ne (hframe p)).symm

theorem log (h : Sound s) (call : Call ι) : Sound (s.log call) :=
  ⟨h.serials, h.announced, h.counted, h.shared⟩

theorem removeClient (h : Sound s) (p : UdpPeer ι) : Sound (s.removeClient p) :=
  ⟨h.serials, h.announced, h.counted, h.shared⟩

/-- A client changes, and with it the calls of `unref` that are to come. -/
theorem change (h : Sound s) (p : UdpPeer ι) {f : DtlsConnectedClient → DtlsConnectedClient}
    {stack : List (StackFrame ι)} (hothers : ∀ q, q ≠ p → unrefs stack q = unrefs s.stack q)
    (hf : ∀ c, s.made p = some c → c.Counted (unrefs s.stack p) →
      (f c).Counted (unrefs stack p) ∧ (f c).shared = c.shared) :
    Sound ({ s with stack := stack }.onClient p f) := by
  have hmade : ∀ q c', ({ s with stack := stack }.onClient p f).made q = some c' →
      ∃ c, s.made q = some c ∧ (q = p ∧ f c = c' ∨ q ≠ p ∧ c = c') := by
    intro q c' hc'
    by_cases hq : q = p
    · subst hq
      rw [made_onClient_self] at hc'
      obtain ⟨c, hc, heq⟩ := Option.map_eq_some_iff.mp hc'
      exact ⟨c, hc, .inl ⟨rfl, heq⟩⟩
    · rw [made_onClient_of_ne _ hq] at hc'
      exact ⟨c', hc', .inr ⟨hq, rfl⟩⟩
  refine ⟨fun q c' hc' => ?_, h.announced, fun q c' hc' => ?_, fun q c' hc' hp => ?_⟩
  · obtain ⟨c, hc, -⟩ := hmade q c' hc'
    exact h.serials q c hc
  · obtain ⟨c, hc, ⟨rfl, rfl⟩ | ⟨hq, rfl⟩⟩ := hmade q c' hc'
    · exact (hf c hc (h.counted q c hc)).1
    · change c.Counted (unrefs stack q)
      rw [hothers q hq]
      exact h.counted q c hc
  · obtain ⟨c, hc, ⟨rfl, rfl⟩ | ⟨hq, rfl⟩⟩ := hmade q c' hc'
    · rw [(hf c hc (h.counted q c hc)).2]
      exact h.shared q c hc hp
    · exact h.shared q c hc hp

/-- A change of a client that has nothing to do with its references. -/
theorem onClient (h : Sound s) (p : UdpPeer ι)
    (hf : ∀ c n, c.Counted n → (f c).Counted n ∧ (f c).shared = c.shared) :
    Sound (s.onClient p f) :=
  h.change p (fun _ _ => rfl) fun c _ hc => hf c _ hc

theorem addSend (h : Sound s) (p : UdpPeer ι) (callback : SendCallback) :
    Sound (s.addSend p callback) := by
  refine h.onClient p fun c n hc => ⟨⟨?_, hc.kept⟩, rfl⟩
  simp only [DtlsConnectedClient.ref, List.length_append, List.length_singleton]
  rw [hc.refs]
  omega

theorem withUdp (h : Sound s) {u : UdpServer ι} (haged : s.udp.Aged u)
    (hannounced : ∀ p it, u.running ≠ .timeoutInAdd p it) : Sound (s.withUdp u) := by
  refine ⟨fun p c' hc' => ?_, hannounced, fun p c' hc' => ?_, fun p c' hc' hp => ?_⟩
  all_goals obtain ⟨c, hc, rfl⟩ := Option.map_eq_some_iff.mp hc'
  · exact (h.serials p c hc).trans_le haged.created
  · split
    next hlost =>
      rw [Bool.and_eq_true] at hlost
      exact ((h.counted p c hc).release hlost.1).1
    next => exact h.counted p c hc
  · have howned : owned u p = true := by simp [owned, show u.peers p.id = some p from hp]
    rw [if_neg (by simp [howned])]
    refine h.shared p c hc ((haged.old p hp).resolve_right fun hnew => ?_)
    exact absurd (h.serials p c hc) (Nat.not_lt.mpr hnew)

/-! ### The functions of the server and its clients -/

section

variable (h : Sound s)
include h

section

variable (p : UdpPeer ι)

theorem close (call : ShutdownCall) : Sound (s.close p call) := by
  unfold DtlsServer.close
  split
  · exact h
  · have hset : Sound (s.onClient p fun c =>
        { c with sentShutdown := c.sentShutdown || call.sent }) :=
      h.onClient p fun c n hc => ⟨⟨hc.refs, hc.kept⟩, rfl⟩
    dsimp only
    split
    · exact (hset.removeClient p).log _
    · split
      · exact hset.removeClient p
      · split
        · exact ((hset.log _).push (by simp)).push (by simp)
        · exact (hset.addSend p _).removeClient p

theorem sslStateCallback (ret : Nat) : Sound (s.sslStateCallback p ret) := by
  unfold DtlsServer.sslStateCallback onAlert
  split
  · exact h
  · split
    · exact (h.removeClient p).log _
    · exact h

theorem finishAndRead (readPending : Bool) : Sound (s.finishAndRead p readPending) := by
  have hfinished : Sound (s.finishHandshake p) := by
    refine log ?_ _
    exact h.onClient p fun c n hc => ⟨⟨hc.refs, hc.kept⟩, rfl⟩
  unfold DtlsServer.finishAndRead
  split
  · exact hfinished.push (by simp)
  · exact hfinished

theorem runSendCallback (callback : SendCallback) (error : Error) :
    Sound (s.runSendCallback p callback error) := by
  cases callback with
  | handshake =>
      dsimp only [DtlsServer.runSendCallback]
      split
      · exact h.log _
      · exact h
  | finishing readPending =>
      dsimp only [DtlsServer.runSendCallback]
      split
      · exact h.log _
      · exact h.finishAndRead p readPending
  | ignored => exact h
  | shutdown => exact (h.log _).push (by simp)
  | data => exact h.log _

theorem sendHandshake (callback : SendCallback) (send : Error) :
    Sound (s.sendHandshake p callback send) := by
  unfold DtlsServer.sendHandshake
  split
  · exact h.runSendCallback p callback send
  · exact h.addSend p callback

theorem afterSslDoHandshake (call : HandshakeCall) : Sound (s.afterSslDoHandshake p call) := by
  unfold DtlsServer.afterSslDoHandshake
  split
  · split
    · exact h.log _
    · exact h.sendHandshake ..
  · exact h
  · split
    · exact (h.sendHandshake p _ _).log _
    · exact h.log _
  · split
    · refine sendHandshake ?_ ..
      exact h.onClient p fun c n hc => ⟨⟨hc.refs, hc.kept⟩, rfl⟩
    · exact h.finishAndRead ..
  · exact h.log _

end

theorem onNewPeer (hserial : p.serial < s.udp.created) (hunrefs : unrefs s.stack p = 0)
    (init : Error) : Sound (s.onNewPeer p init) := by
  have hmade : Sound
      { s with
        made := Function.update s.made p (some { sslInited := !init.isError })
        clients := s.clients ++ [p] } := by
    have hcases : ∀ q c, Function.update s.made p (some { sslInited := !init.isError }) q = some c →
        q = p ∧ c = { sslInited := !init.isError } ∨ s.made q = some c := by
      intro q c hc
      by_cases hq : q = p
      · subst hq
        rw [Function.update_self] at hc
        exact .inl ⟨rfl, (Option.some.inj hc).symm⟩
      · rw [Function.update_of_ne hq] at hc
        exact .inr hc
    refine ⟨fun q c hc => ?_, h.announced, fun q c hc => ?_, fun q c hc hq => ?_⟩
    · rcases hcases q c hc with ⟨rfl, -⟩ | hold
      · exact hserial
      · exact h.serials q c hold
    · rcases hcases q c hc with ⟨rfl, rfl⟩ | hold
      · exact ⟨by simp [hunrefs], fun _ => ⟨rfl, rfl⟩⟩
      · exact h.counted q c hold
    · rcases hcases q c hc with ⟨rfl, rfl⟩ | hold
      · rfl
      · exact h.shared q c hold hq
  unfold DtlsServer.onNewPeer
  dsimp only
  split
  · exact hmade.log _
  · exact hmade

theorem onDataReceive {written : Bool} (hdata : s.onDataReceive p written = some s') :
    Sound s' := by
  unfold DtlsServer.onDataReceive at hdata
  split at hdata
  · cases hdata
  · split at hdata
    · cases hdata
      split
      · exact h.push (by simp)
      · exact h
    · split at hdata
      · cases hdata
        exact h.log _
      · split at hdata
        · cases hdata
          exact h
        · cases hdata
          exact h.push (by simp)

theorem onTimeout {call : ShutdownCall} (htimeout : s.onTimeout p call = some s') : Sound s' := by
  unfold DtlsServer.onTimeout at htimeout
  split at htimeout
  · cases htimeout
  · cases htimeout
    exact h.close p call

theorem entered
    (hnew : ∀ p, s.udp.running = .newPeer p → p.serial < s.udp.created ∧ unrefs s.stack p = 0)
    (hentered : s.entered answers = some s') : Sound s' := by
  unfold DtlsServer.entered at hentered
  split at hentered
  next =>
    cases hentered
    exact h
  next p hrun =>
    cases hentered
    obtain ⟨hserial, hunrefs⟩ := hnew p hrun
    exact h.onNewPeer hserial hunrefs _
  next => exact h.onDataReceive hentered
  next => exact h.onTimeout hentered
  next => exact h.onTimeout hentered

theorem closePeer (hclose : s.closePeer p = some s') : Sound s' := by
  obtain ⟨u, hu, rfl⟩ := Option.map_eq_some_iff.mp hclose
  obtain ⟨herases, hrun, -⟩ := UdpServer.closePeer_spec hu
  refine (h.withUdp herases.aged ?_).onClient p fun c n hc => ⟨⟨hc.refs, hc.kept⟩, rfl⟩
  rw [hrun]
  exact h.announced

end

/-! ### Steps -/

section

variable (h : Sound s)
include h

theorem made_eq_none (hnew : s.udp.created ≤ p.serial) : s.made p = none := by
  cases hmade : s.made p with
  | none => rfl
  | some c => exact absurd (h.serials p c hmade) (Nat.not_lt.mpr hnew)

theorem datagram {id : ι} {addedAt : UInt64}
    (hstep : s.udpStep (.datagram id addedAt) answers = some s') : Sound s' := by
  obtain ⟨hstack, u, hu, hentered⟩ := udpStep_eq_some.mp hstep
  obtain ⟨-, -, hsame | hnew⟩ := UdpServer.datagram_spec hu
  · obtain ⟨hpeers, hcreated, hrun⟩ := hsame
    have haged : s.udp.Aged u := ⟨hcreated, fun p hp => .inl (hpeers ▸ hp)⟩
    have hnot : (∀ p it, u.running ≠ .timeoutInAdd p it) ∧ ∀ p, u.running ≠ .newPeer p := by
      rcases hrun with hidle | ⟨p, hdata⟩
      · simp [hidle]
      · simp [hdata]
    exact (h.withUdp haged hnot.1).entered (fun p hp => absurd hp (hnot.2 p)) hentered
  · obtain ⟨p, hserial, hlt, -, hpeers, hcreated, hrun⟩ := hnew
    have haged : s.udp.Aged u := by
      refine ⟨hcreated, fun q hq => ?_⟩
      rw [hpeers] at hq
      by_cases hid : q.id = p.id
      · rw [hid, Function.update_self] at hq
        cases hq
        exact .inr hserial
      · rw [Function.update_of_ne hid] at hq
        exact .inl hq
    have hnone : (s.withUdp u).made p = none := by
      simp [DtlsServer.withUdp, h.made_eq_none hserial]
    rcases hrun with hnewPeer | hdata | ⟨it, htimeout⟩
    · refine (h.withUdp haged (by simp [hnewPeer])).entered (fun q hq => ?_) hentered
      cases hnewPeer.symm.trans hq
      exact ⟨hlt, by simp [DtlsServer.withUdp, hstack, unrefs]⟩
    · refine (h.withUdp haged (by simp [hdata])).entered (fun q hq => ?_) hentered
      cases hdata.symm.trans hq
    · -- A peer that times out before it is announced has no client.
      rw [DtlsServer.entered, show (s.withUdp u).udp.running = _ from htimeout] at hentered
      dsimp only at hentered
      rw [DtlsServer.onTimeout, hnone] at hentered
      cases hentered

theorem visit (hstep : s.udpStep .visit answers = some s') : Sound s' := by
  obtain ⟨-, u, hu, hentered⟩ := udpStep_eq_some.mp hstep
  obtain ⟨-, hpeers, hcreated, -, hrun⟩ := UdpServer.visit_spec hu
  have hnot : (∀ p it, u.running ≠ .timeoutInAdd p it) ∧ ∀ p, u.running ≠ .newPeer p := by
    rcases hrun with hidle | ⟨p, htimeout⟩
    · simp [hidle]
    · simp [htimeout]
  exact (h.withUdp (.of_eq hpeers hcreated) hnot.1).entered (fun p hp => absurd hp (hnot.2 p))
    hentered

theorem tick {e : UdpServer.Event ι}
    (he : (∃ index, e = .onTimer index) ∨ ∃ id, e = .inactivityOver id)
    (hstep : s.udpStep e answers = some s') : Sound s' := by
  obtain ⟨u, rfl, hpeers, hcreated, hidle, -⟩ := udpStep_tick he hstep
  exact h.withUdp (.of_eq hpeers hcreated) (by simp [hidle])

theorem advance {u : UdpServer ι} {clock : UInt64} (hu : s.udp.step (.advance clock) = some u) :
    Sound (s.withUdp u) := by
  obtain ⟨hpeers, hcreated, hrun, -⟩ := UdpServer.tick_spec (.inr (.inr ⟨clock, rfl⟩)) hu
  refine h.withUdp (.of_eq hpeers hcreated) ?_
  rw [hrun]
  exact h.announced

theorem onSend {callback : SendCallback} (hsend : s.hasSend p callback = true) (status : Error) :
    Sound (s.onSend p callback status) := by
  refine runSendCallback ?_ p callback status
  change Sound ({ s with stack := .unref p :: s.stack }.onClient p _)
  refine h.change p (fun q hq => ?_) fun c hc hcounted => ?_
  · exact List.count_cons_of_ne (by simpa using fun heq => hq heq.symm)
  · have hmem : callback ∈ c.sends := by simpa [hasSend, hc] using hsend
    have hlength := List.length_erase_of_mem hmem
    have hpos := List.length_pos_of_mem hmem
    refine ⟨⟨?_, hcounted.kept⟩, rfl⟩
    simp only [unrefs, List.count_cons_self] at hcounted ⊢
    rw [hcounted.refs, hlength]
    omega

theorem onRemoval (hremoval : ((s.made p).any fun c => decide (0 < c.removals)) = true) :
    Sound (s.onRemoval p) := by
  refine h.change p (fun _ _ => rfl) fun c hc hcounted => ⟨⟨hcounted.refs, fun hs => ?_⟩, rfl⟩
  have hpos : 0 < c.removals := by simpa [hc] using hremoval
  have hzero := (hcounted.kept hs).1
  omega

theorem unref (hstack : s.stack = .unref p :: rest) :
    Sound ({ s with stack := rest }.onClient p fun c => c.unref) := by
  refine h.change p (fun q hq => ?_) fun c hc hcounted => ?_
  · rw [hstack]
    exact (List.count_cons_of_ne (by simpa using fun heq => hq heq.symm)).symm
  · rw [hstack, unrefs, List.count_cons_self] at hcounted
    obtain ⟨-, -, hshared, -⟩ := DtlsConnectedClient.unref_spec
      (c := c) (n := c.sends.length + unrefs rest p + c.shared.toNat)
      (by rw [hcounted.refs, unrefs]; omega)
    exact ⟨hcounted.unref, hshared⟩

theorem resume (hresume : s.resume answers = some s') : Sound s' := by
  unfold DtlsServer.resume at hresume
  split at hresume
  next hstack =>
    split at hresume
    · cases hresume
    · obtain ⟨u, hu, hentered⟩ := Option.bind_eq_some_iff.mp hresume
      obtain ⟨haged, -, -, hrun, -⟩ := UdpServer.leave_spec hu h.announced
      have hnot : (∀ p it, u.running ≠ .timeoutInAdd p it) ∧ ∀ p, u.running ≠ .newPeer p := by
        rcases hrun with hidle | ⟨p, hdata⟩
        · simp [hidle]
        · simp [hdata]
      exact (h.withUdp haged hnot.1).entered (fun p hp => absurd hp (hnot.2 p)) hentered
  next p rest hstack => exact (h.pop hstack (by simp)).closePeer hresume
  next p rest hstack =>
    cases hresume
    exact (h.pop hstack (by simp)).removeClient p
  next p rest hstack =>
    cases hresume
    exact h.unref hstack
  next p ps rest hstack =>
    cases hresume
    refine close ?_ p answers.shutdown
    have hpopped : Sound ({ s with stack := rest }.push (.closing ps)) :=
      (h.pop hstack (by simp)).push (by simp)
    exact ⟨hpopped.serials, hpopped.announced, hpopped.counted, hpopped.shared⟩
  next rest hstack =>
    cases hresume
    have hpopped := h.pop hstack (by simp)
    obtain ⟨hpeers, hcreated, hrun⟩ := UdpServer.close_spec s.udp (some [])
    constructor
    · dsimp only
      rw [hcreated]
      exact hpopped.serials
    · dsimp only
      rw [hrun]
      exact hpopped.announced
    · exact hpopped.counted
    · dsimp only
      rw [hpeers]
      exact hpopped.shared
  next => cases hresume
  next => cases hresume

theorem onClose : Sound (s.withUdp s.udp.onClose) := by
  obtain ⟨hcreated, hrun, hold⟩ := UdpServer.onClose_spec s.udp
  refine h.withUdp ⟨hcreated.ge, fun p hp => .inl (hold p hp)⟩ ?_
  rw [hrun]
  exact h.announced

theorem sendData (p : UdpPeer ι) (result : WriteResult) : Sound (s.sendData p result) := by
  unfold DtlsServer.sendData
  split
  · exact h.log _
  · cases result with
    | failed reason => exact h.log _
    | nothing => exact h.log _
    | written send =>
        dsimp only
        split
        · exact h.log _
        · exact h.addSend p _

theorem onRead (hstack : s.stack = .reading p :: rest) (result : ReadResult) :
    Sound (s.onRead p rest result) := by
  cases result with
  | data => exact h.log _
  | dry => exact h.pop hstack (by simp)
  | error reason => exact (h.pop hstack (by simp)).log _

/-- Every step keeps the account of the references. -/
theorem step {e : Event ι} (hstep : s.step e = some s') : Sound s' := by
  cases e with
  | close p call =>
      obtain ⟨-, rfl⟩ := step_close_eq_some.mp hstep
      exact h.close p call
  | serverClose order =>
      obtain ⟨-, rfl⟩ := step_serverClose_eq_some.mp hstep
      refine push ?_ (by simp)
      exact ⟨h.serials, h.announced, h.counted, h.shared⟩
  | send p result =>
      obtain ⟨-, rfl⟩ := step_send_eq_some.mp hstep
      exact h.sendData p result
  | datagram id addedAt answers => exact h.datagram hstep
  | onTimer index => exact h.tick (.inl ⟨index, rfl⟩) hstep
  | visit answers => exact h.visit hstep
  | inactivityOver id => exact h.tick (.inr ⟨id, rfl⟩) hstep
  | advance clock =>
      obtain ⟨u, hu, rfl⟩ := Option.map_eq_some_iff.mp hstep
      exact h.advance hu
  | sendDone p callback status =>
      obtain ⟨-, hsend, rfl⟩ := step_sendDone_eq_some.mp hstep
      exact h.onSend hsend status
  | removal p =>
      obtain ⟨-, hremoval, rfl⟩ := step_removal_eq_some.mp hstep
      exact h.onRemoval hremoval
  | serverClosed =>
      obtain ⟨-, rfl⟩ := step_serverClosed_eq_some.mp hstep
      exact h.onClose
  | handshake call =>
      obtain ⟨p, rest, hstack, rfl⟩ := step_handshake_eq_some.mp hstep
      exact (h.pop hstack (by simp)).afterSslDoHandshake p call
  | read result =>
      obtain ⟨p, rest, hstack, rfl⟩ := step_read_eq_some.mp hstep
      exact h.onRead hstack result
  | alert ret =>
      obtain ⟨p, -, rfl⟩ := step_alert_eq_some.mp hstep
      exact h.sslStateCallback p ret
  | leave answers => exact h.resume hstep

end

end Sound

end DtlsServer

end TarmIo.Net
