import TarmIo.Net.Dtls.PeerOwnership

/-!
# The clients of a DTLS server are alive

A client is deleted with its peer, and leaves `m_clients` when it is closed. So what has to hold is
that the peer of a client in `m_clients` stays in `m_peers`. It does not when a peer times out whose
client is not open, so that `on_timeout` closes nothing; and when `UdpPeer::close` erases another
peer of the same address, which has come after the one that is closed was erased by its timeout.
-/

namespace TarmIo.Net

open Foundation

namespace DtlsServer

open Dtls

variable {ι : Type*}

def Alive (s : DtlsServer ι) (p : UdpPeer ι) : Prop := ∃ c, s.made p = some c ∧ c.deleted = false

instance (s : DtlsServer ι) (p : UdpPeer ι) : Decidable (s.Alive p) :=
  decidable_of_iff (((s.made p).any fun c => !c.deleted) = true) (by
    simp [Alive, Option.any_eq_true])

def Leaving (s : DtlsServer ι) (p : UdpPeer ι) : Prop :=
  StackFrame.closePeer p ∈ s.stack ∨ ∃ c, s.made p = some c ∧ SendCallback.shutdown ∈ c.sends

/-- The clients in `m_clients` are alive, and so are those that `close` has taken from there. A
client that is leaving is in `m_clients` at most until `close` returns, and no client is there while
the server closes. -/
structure Guarded (s : DtlsServer ι) : Prop where
  live : ∀ p ∈ s.clients, s.Alive p
  closing : ∀ ps, StackFrame.closing ps ∈ s.stack → ∀ p ∈ ps, s.Alive p
  leaving : ∀ p, s.Leaving p → p ∈ s.clients → StackFrame.removeClient p ∈ s.stack
  emptied : (∃ ps, StackFrame.closing ps ∈ s.stack) ∨ s.udp.handle.closing = true → s.clients = []
  touched : s.touchedDeleted = false

def InTable (u : UdpServer ι) (p : UdpPeer ι) : Prop :=
  u.peers p.id = some p ∧ ∀ q it, u.running = .timeout q it → it ≠ some p

/-- The peers of the clients in `m_clients` are in the table, until `close` removes the client. -/
def Sheltered (s : DtlsServer ι) : Prop :=
  ∀ p ∈ s.clients, StackFrame.removeClient p ∈ s.stack ∨ InTable s.udp p

/-! ## What the functions of the server keep -/

/-- Nothing is added to `m_clients` or deleted, and frames are only put on the stack. -/
structure Tame (s t : DtlsServer ι) : Prop where
  udp : t.udp = s.udp
  clients : ∀ p ∈ t.clients, p ∈ s.clients
  alive : ∀ p, s.Alive p → t.Alive p
  removing : ∀ p, StackFrame.removeClient p ∈ s.stack → StackFrame.removeClient p ∈ t.stack
  closing : ∀ ps, StackFrame.closing ps ∈ t.stack → StackFrame.closing ps ∈ s.stack
  leaving : ∀ p, t.Leaving p → p ∈ t.clients → s.Leaving p ∨ StackFrame.removeClient p ∈ t.stack
  touched : t.touchedDeleted = s.touchedDeleted

namespace Tame

variable {s t u : DtlsServer ι}

theorem refl (s : DtlsServer ι) : Tame s s :=
  ⟨rfl, fun _ h => h, fun _ h => h, fun _ h => h, fun _ h => h, fun _ h _ => .inl h, rfl⟩

theorem trans (h : Tame s t) (h' : Tame t u) : Tame s u where
  udp := h'.udp.trans h.udp
  clients p hp := h.clients p (h'.clients p hp)
  alive p hp := h'.alive p (h.alive p hp)
  removing p hp := h'.removing p (h.removing p hp)
  closing ps hps := h.closing ps (h'.closing ps hps)
  leaving p hleaving hp := by
    rcases h'.leaving p hleaving hp with hold | hremoving
    · exact (h.leaving p hold (h'.clients p hp)).imp_right (h'.removing p)
    · exact .inr hremoving
  touched := h'.touched.trans h.touched

theorem log (s : DtlsServer ι) (call : Call ι) : Tame s (s.log call) :=
  ⟨rfl, fun _ h => h, fun _ h => h, fun _ h => h, fun _ h => h, fun _ h _ => .inl h, rfl⟩

/-- A frame for OpenSSL, or one that removes the client, is put on the stack. -/
theorem push (s : DtlsServer ι) {frame : StackFrame ι} (hclosing : ∀ ps, frame ≠ .closing ps)
    (hpeer : ∀ p, frame ≠ .closePeer p) : Tame s (s.push frame) where
  udp := rfl
  clients _ h := h
  alive _ h := h
  removing _ h := List.mem_cons_of_mem _ h
  closing ps h := (List.mem_cons.mp h).resolve_left fun heq => hclosing ps heq.symm
  leaving p h _ := by
    refine .inl (h.imp_left fun hmem => ?_)
    exact (List.mem_cons.mp hmem).resolve_left fun heq => hpeer p heq.symm
  touched := rfl

theorem pushClosePeer (s : DtlsServer ι) {p : UdpPeer ι}
    (hremoving : StackFrame.removeClient p ∈ s.stack) : Tame s (s.push (.closePeer p)) where
  udp := rfl
  clients _ h := h
  alive _ h := h
  removing _ h := List.mem_cons_of_mem _ h
  closing ps h := (List.mem_cons.mp h).resolve_left (by simp)
  leaving q h _ := by
    rcases h with hmem | hsent
    · rcases List.mem_cons.mp hmem with heq | hold
      · cases heq
        exact .inr (List.mem_cons_of_mem _ hremoving)
      · exact .inl (.inl hold)
    · exact .inl (.inr hsent)
  touched := rfl

end Tame

variable {s t : DtlsServer ι} {frame : StackFrame ι} {rest : List (StackFrame ι)}

theorem Guarded.tame (h : Guarded s) (ht : Tame s t) : Guarded t where
  live p hp := ht.alive p (h.live p (ht.clients p hp))
  closing ps hps p hp := ht.alive p (h.closing ps (ht.closing ps hps) p hp)
  leaving p hleaving hp := by
    rcases ht.leaving p hleaving hp with hold | hremoving
    · exact ht.removing p (h.leaving p hold (ht.clients p hp))
    · exact hremoving
  emptied hclosing := by
    have hempty : s.clients = [] := by
      refine h.emptied (hclosing.imp ?_ ?_)
      · exact fun ⟨ps, hps⟩ => ⟨ps, ht.closing ps hps⟩
      · exact fun hhandle => by rwa [ht.udp] at hhandle
    refine List.eq_nil_iff_forall_not_mem.mpr fun p hp => ?_
    simpa [hempty] using ht.clients p hp
  touched := ht.touched.trans h.touched

theorem Sheltered.tame (h : Sheltered s) (ht : Tame s t) : Sheltered t := fun p hp => by
  rw [ht.udp]
  exact (h p (ht.clients p hp)).imp_left (ht.removing p)

theorem Guarded.pop (h : Guarded s) (hstack : s.stack = frame :: rest)
    (hframe : ∀ p, frame ≠ .removeClient p) :
    Guarded { s with stack := rest } where
  live := h.live
  closing ps hps := h.closing ps (by rw [hstack]; exact List.mem_cons_of_mem _ hps)
  leaving p hleaving hp := by
    have hold : s.Leaving p :=
      hleaving.imp_left fun hmem => by rw [hstack]; exact List.mem_cons_of_mem _ hmem
    have hremoving := h.leaving p hold hp
    rw [hstack] at hremoving
    exact (List.mem_cons.mp hremoving).resolve_left (hframe p).symm
  emptied hclosing := by
    refine h.emptied (hclosing.imp_left ?_)
    rintro ⟨ps, hps⟩
    exact ⟨ps, by rw [hstack]; exact List.mem_cons_of_mem _ hps⟩
  touched := h.touched

theorem Sheltered.pop (h : Sheltered s) (hstack : s.stack = frame :: rest)
    (hframe : ∀ p, frame ≠ .removeClient p) : Sheltered { s with stack := rest } := fun p hp => by
  refine (h p hp).imp_left fun hremoving => ?_
  rw [hstack] at hremoving
  exact (List.mem_cons.mp hremoving).resolve_left (hframe p).symm

variable [DecidableEq ι]

namespace Tame

variable {callback : SendCallback}

section

variable (s : DtlsServer ι) (p : UdpPeer ι)

theorem removeClient : Tame s (s.removeClient p) :=
  ⟨rfl, fun _ h => List.mem_of_mem_filter h, fun _ h => h, fun _ h => h, fun _ h => h,
    fun _ h _ => .inl h, rfl⟩

theorem onClient {f : DtlsConnectedClient → DtlsConnectedClient}
    (hdeleted : ∀ c, (f c).deleted = c.deleted)
    (hsends : ∀ c, SendCallback.shutdown ∈ (f c).sends → SendCallback.shutdown ∈ c.sends) :
    Tame s (s.onClient p f) where
  udp := rfl
  clients _ h := h
  alive q h := by
    obtain ⟨c, hc, hd⟩ := h
    by_cases hq : q = p
    · subst hq
      exact ⟨f c, by rw [made_onClient_self, hc, Option.map_some], (hdeleted c).trans hd⟩
    · exact ⟨c, by rw [made_onClient_of_ne s hq, hc], hd⟩
  removing _ h := h
  closing _ h := h
  leaving q h _ := by
    refine .inl (h.imp_right ?_)
    rintro ⟨c', hc', hmem⟩
    by_cases hq : q = p
    · subst hq
      rw [made_onClient_self] at hc'
      obtain ⟨c, hc, rfl⟩ := Option.map_eq_some_iff.mp hc'
      exact ⟨c, hc, hsends c hmem⟩
    · rw [made_onClient_of_ne s hq] at hc'
      exact ⟨c', hc', hmem⟩
  touched := rfl

theorem addSend (hcallback : callback ≠ .shutdown) : Tame s (s.addSend p callback) :=
  onClient s p (fun _ => rfl) fun c hmem => by
    simpa [Ne.symm hcallback] using hmem

theorem sendShutdown :
    Tame s ((s.addSend p .shutdown).removeClient p) where
  udp := rfl
  clients _ h := List.mem_of_mem_filter h
  alive q h := by
    obtain ⟨c, hc, hd⟩ := h
    by_cases hq : q = p
    · subst hq
      refine ⟨{ c.ref with sends := c.sends ++ [.shutdown] }, ?_, hd⟩
      rw [DtlsServer.removeClient, DtlsServer.addSend, made_onClient_self, hc, Option.map_some]
    · refine ⟨c, ?_, hd⟩
      rw [DtlsServer.removeClient, DtlsServer.addSend, made_onClient_of_ne s hq, hc]
  removing _ h := h
  closing _ h := h
  leaving q h hmem := by
    have hq : q ≠ p := by simpa using (List.mem_filter.mp hmem).2
    refine .inl (h.imp_right ?_)
    rintro ⟨c, hc, hshutdown⟩
    rw [DtlsServer.removeClient, DtlsServer.addSend, made_onClient_of_ne s hq] at hc
    exact ⟨c, hc, hshutdown⟩
  touched := rfl

theorem close (call : ShutdownCall) : Tame s (s.close p call) := by
  unfold DtlsServer.close
  split
  · exact refl s
  · have hset : Tame s (s.onClient p fun c =>
        { c with sentShutdown := c.sentShutdown || call.sent }) :=
      onClient s p (fun _ => rfl) fun _ h => h
    dsimp only
    split
    · exact (hset.trans (removeClient _ p)).trans (log ..)
    · split
      · exact hset.trans (removeClient _ p)
      · split
        · refine (hset.trans (log _ _)).trans ((push _ ?_ ?_).trans (pushClosePeer _ ?_))
          · simp
          · simp
          · exact List.mem_cons_self
        · exact hset.trans (sendShutdown _ p)

theorem sslStateCallback (ret : Nat) : Tame s (s.sslStateCallback p ret) := by
  unfold DtlsServer.sslStateCallback onAlert
  split
  · exact refl s
  · split
    · exact (removeClient s p).trans (log ..)
    · exact refl s

theorem finishAndRead (readPending : Bool) : Tame s (s.finishAndRead p readPending) := by
  have hfinished : Tame s (s.finishHandshake p) := by
    refine Tame.trans ?_ (log ..)
    exact onClient s p (fun _ => rfl) fun _ h => h
  unfold DtlsServer.finishAndRead
  split
  · exact hfinished.trans (push _ (by simp) (by simp))
  · exact hfinished

theorem runSendCallback (hcallback : callback ≠ .shutdown) (error : Error) :
    Tame s (s.runSendCallback p callback error) := by
  cases callback with
  | handshake =>
      dsimp only [DtlsServer.runSendCallback]
      split
      · exact log ..
      · exact refl s
  | finishing readPending =>
      dsimp only [DtlsServer.runSendCallback]
      split
      · exact log ..
      · exact finishAndRead s p readPending
  | ignored => exact refl s
  | shutdown => exact absurd rfl hcallback
  | data => exact log ..

theorem sendHandshake (hcallback : callback ≠ .shutdown) (send : Error) :
    Tame s (s.sendHandshake p callback send) := by
  unfold DtlsServer.sendHandshake
  split
  · exact runSendCallback s p hcallback send
  · exact addSend s p hcallback

theorem afterSslDoHandshake (call : HandshakeCall) : Tame s (s.afterSslDoHandshake p call) := by
  unfold DtlsServer.afterSslDoHandshake
  split
  · split
    · exact log ..
    · exact sendHandshake s p (by simp) _
  · exact refl s
  · split
    · exact (sendHandshake s p (by simp) _).trans (log ..)
    · exact log ..
  · split
    · refine Tame.trans ?_ (sendHandshake _ p (by simp) _)
      exact onClient s p (fun _ => rfl) fun _ h => h
    · exact finishAndRead ..
  · exact log ..

end

variable {p : UdpPeer ι}

omit [DecidableEq ι] in
theorem onDataReceive {s s' : DtlsServer ι} {written : Bool}
    (h : s.onDataReceive p written = some s') : Tame s s' := by
  unfold DtlsServer.onDataReceive at h
  split at h
  · cases h
  · split at h
    · cases h
      split
      · exact push s (by simp) (by simp)
      · exact refl s
    · split at h
      · cases h
        exact log ..
      · split at h
        · cases h
          exact refl s
        · cases h
          exact push s (by simp) (by simp)

/-- A send completes. The client whose shutdown was sent was already leaving. -/
theorem onSend {s : DtlsServer ι} (hsend : s.hasSend p callback = true) (status : Error) :
    Tame s (s.onSend p callback status) := by
  have herase : Tame s ((s.onClient p fun c =>
      { c with sends := c.sends.erase callback }).push (.unref p)) := by
    refine Tame.trans ?_ (push _ (by simp) (by simp))
    exact onClient s p (fun _ => rfl) fun _ h => List.mem_of_mem_erase h
  by_cases hcallback : callback = .shutdown
  · subst hcallback
    obtain ⟨c, hc, hmem⟩ : ∃ c, s.made p = some c ∧ SendCallback.shutdown ∈ c.sends := by
      simpa [hasSend, Option.any_eq_true] using hsend
    have hlog := herase.trans (log _ (.closed p {}))
    refine ⟨hlog.udp, hlog.clients, hlog.alive, ?_, ?_, ?_, hlog.touched⟩
    · exact fun q hq => List.mem_cons_of_mem _ (hlog.removing q hq)
    · exact fun ps hps => hlog.closing ps ((List.mem_cons.mp hps).resolve_left (by simp))
    · intro q hq hclient
      rcases hq with hframe | hshutdown
      · rcases List.mem_cons.mp hframe with heq | hold
        · cases heq
          exact .inl (.inr ⟨c, hc, hmem⟩)
        · exact (hlog.leaving q (.inl hold) hclient).imp_right (List.mem_cons_of_mem _)
      · exact (hlog.leaving q (.inr hshutdown) hclient).imp_right (List.mem_cons_of_mem _)
  · exact herase.trans (runSendCallback _ p hcallback status)

theorem sendData (s : DtlsServer ι) (p : UdpPeer ι) (result : WriteResult) :
    Tame s (s.sendData p result) := by
  unfold DtlsServer.sendData
  split
  · exact log ..
  · cases result with
    | failed reason => exact log ..
    | nothing => exact log ..
    | written send =>
        dsimp only
        split
        · exact log ..
        · exact addSend s p (by simp)

end Tame

/-! ## Steps -/

variable {p : UdpPeer ι} {u : UdpServer ι}

theorem not_mem_removeClient (s : DtlsServer ι) (p : UdpPeer ι) :
    p ∉ (s.removeClient p).clients := by
  simp [removeClient]

/-- A client that is open is removed when it is closed, or at least when `close` returns. -/
theorem close_removes (hopen : s.isOpen p = true) (call : ShutdownCall)
    (hp : p ∈ (s.close p call).clients) : StackFrame.removeClient p ∈ (s.close p call).stack := by
  revert hp
  rw [close, if_neg (by simp [hopen])]
  dsimp only
  split
  · exact fun hp => absurd hp (not_mem_removeClient _ p)
  · split
    · exact fun hp => absurd hp (not_mem_removeClient _ p)
    · split
      · exact fun _ => List.mem_cons_of_mem _ List.mem_cons_self
      · exact fun hp => absurd hp (not_mem_removeClient _ p)

theorem Alive.withUdp (h : s.Alive p) (u : UdpServer ι) : (s.withUdp u).Alive p := by
  obtain ⟨c, hc, hd⟩ := h
  obtain ⟨c', hc', hd', -⟩ := made_withUdp (u := u) hc
  exact ⟨c', hc', hd'.trans hd⟩

theorem Leaving.of_withUdp (h : (s.withUdp u).Leaving p) : s.Leaving p := by
  refine h.imp_right ?_
  rintro ⟨c', hc', hmem⟩
  obtain ⟨c, hc, -⟩ := Option.map_eq_some_iff.mp hc'
  obtain ⟨c'', hc'', -, hsends, -⟩ := made_withUdp (u := u) hc
  cases hc'.symm.trans hc''
  exact ⟨c, hc, hsends ▸ hmem⟩

theorem Guarded.withUdp (h : Guarded s) (hhandle : u.handle = s.udp.handle) :
    Guarded (s.withUdp u) where
  live p hp := (h.live p hp).withUdp u
  closing ps hps p hp := (h.closing ps hps p hp).withUdp u
  leaving p hleaving hp := h.leaving p hleaving.of_withUdp hp
  emptied hclosing := h.emptied (hclosing.imp_right fun hu => by rwa [← hhandle])
  touched := h.touched

omit [DecidableEq ι] in
theorem InTable.of_running (hp : u.peers p.id = some p) (hrun : ∀ q it, u.running ≠ .timeout q it) :
    InTable u p :=
  ⟨hp, fun q it hq => absurd hq (hrun q it)⟩

theorem Sheltered.withUdp (h : Sheltered s)
    (hkept : ∀ p ∈ s.clients, InTable s.udp p → InTable u p) : Sheltered (s.withUdp u) :=
  fun p hp => (h p hp).imp_right (hkept p hp)

theorem Tame.entered (hrun : ∀ p, s.udp.running ≠ .newPeer p) {answers : Answers}
    (h : s.entered answers = some t) : Tame s t := by
  unfold DtlsServer.entered at h
  split at h
  next =>
    cases h
    exact refl s
  next p hnew => exact absurd hnew (hrun p)
  next => exact onDataReceive h
  all_goals
    unfold onTimeout at h
    split at h
    · cases h
    · cases h
      exact close ..

theorem Guarded.onNewPeer (h : Guarded s) (hstack : s.stack = [])
    (hhandle : s.udp.handle.closing = false) (init : Error) : Guarded (s.onNewPeer p init) := by
  have hadded : Guarded
      { s with
        made := Function.update s.made p (some { sslInited := !init.isError })
        clients := s.clients ++ [p] } := by
    refine ⟨fun q hq => ?_, ?_, ?_, ?_, h.touched⟩
    · by_cases heq : q = p
      · subst heq
        exact ⟨_, Function.update_self .., rfl⟩
      · obtain ⟨c, hc, hd⟩ := h.live q (by simpa [heq] using hq)
        exact ⟨c, (Function.update_of_ne heq ..).trans hc, hd⟩
    · simp [hstack]
    · rintro q (hframe | ⟨c, hc, hmem⟩) hq
      · simp [hstack] at hframe
      · by_cases heq : q = p
        · subst heq
          cases (Function.update_self ..).symm.trans hc
          cases hmem
        · have hold : s.made q = some c := (Function.update_of_ne heq ..).symm.trans hc
          exact h.leaving q (.inr ⟨c, hold, hmem⟩) (by simpa [heq] using hq)
    · simp [hstack, hhandle]
  unfold DtlsServer.onNewPeer
  dsimp only
  split
  · exact hadded.tame (.log ..)
  · exact hadded

theorem Sheltered.onNewPeer (h : Sheltered s) (hp : InTable s.udp p) (init : Error) :
    Sheltered (s.onNewPeer p init) := by
  have hadded : Sheltered
      { s with
        made := Function.update s.made p (some { sslInited := !init.isError })
        clients := s.clients ++ [p] } := by
    intro q hq
    rcases List.mem_append.mp hq with hold | hnew
    · exact h q hold
    · cases List.mem_singleton.mp hnew
      exact .inr hp
  unfold DtlsServer.onNewPeer
  dsimp only
  split
  · exact hadded.tame (.log ..)
  · exact hadded

/-- What must not happen to a client in `m_clients`: its peer times out while it is not open, so
that `on_timeout` does not remove it, or another peer of the same address is closed. -/
def Keeps (s : DtlsServer ι) : Event ι → Prop
  | .visit _ =>
      match s.udp.step .visit with
      | none => True
      | some u =>
          match u.running with
          | .timeout p it => ∀ q ∈ s.clients, it = some q → q = p ∧ s.isOpen p = true
          | _ => True
  | .leave _ =>
      match s.stack with
      | .closePeer p :: _ => ∀ q ∈ s.clients, s.udp.peers p.id = some q → q = p
      | _ => True
  | _ => True

/-- The invariant of the runs in which nothing of that kind happens. -/
structure Safe (s : DtlsServer ι) : Prop where
  sound : Sound s
  guarded : Guarded s
  sheltered : Sheltered s

namespace Safe

variable {s' : DtlsServer ι} {answers : Answers}

section

variable (h : Safe s)
include h

theorem tame (ht : Tame s t) : Guarded t ∧ Sheltered t :=
  ⟨h.guarded.tame ht, h.sheltered.tame ht⟩

theorem inTable (hstack : s.stack = []) (hp : p ∈ s.clients) : InTable s.udp p :=
  (h.sheltered p hp).resolve_left (by simp [hstack])

/-- The UDP server keeps the peers, and runs the callback for data or none. -/
theorem entered (hhandle : u.handle = s.udp.handle)
    (hkept : ∀ q, InTable s.udp q → u.peers q.id = some q)
    (hrun : u.running = .idle ∨ ∃ p, u.running = .data p)
    (hentered : (s.withUdp u).entered answers = some s') : Guarded s' ∧ Sheltered s' := by
  have hnot : (∀ p it, u.running ≠ .timeout p it) ∧ ∀ p, u.running ≠ .newPeer p := by
    rcases hrun with hidle | ⟨p, hdata⟩
    · simp [hidle]
    · simp [hdata]
  have htame := Tame.entered hnot.2 hentered
  refine ⟨(h.guarded.withUdp hhandle).tame htame, Sheltered.tame ?_ htame⟩
  exact h.sheltered.withUdp fun q _ hq => .of_running (hkept q hq) hnot.1

theorem datagram {id : ι} {addedAt : UInt64}
    (hstep : s.udpStep (.datagram id addedAt) answers = some s') : Guarded s' ∧ Sheltered s' := by
  obtain ⟨hstack, u, hu, hentered⟩ := udpStep_eq_some.mp hstep
  obtain ⟨hopen, hhandle, hsame | hnew⟩ := UdpServer.datagram_spec hu
  · obtain ⟨hpeers, -, hrun⟩ := hsame
    exact h.entered hhandle (fun q hq => hpeers ▸ hq.1) hrun hentered
  · obtain ⟨p, -, -, hnone, hpeers, -, hrun⟩ := hnew
    have hold : ∀ q, InTable s.udp q → u.peers q.id = some q := by
      intro q hq
      have hid : q.id ≠ p.id := by
        intro hid
        rw [← hid, hq.1] at hnone
        cases hnone
      rw [hpeers, Function.update_of_ne hid]
      exact hq.1
    have hnot : ∀ q it, u.running ≠ .timeout q it := by
      rcases hrun with hrun | hrun | ⟨it, hrun⟩ <;> simp [hrun]
    have hmoved : Guarded (s.withUdp u) ∧ Sheltered (s.withUdp u) :=
      ⟨h.guarded.withUdp hhandle,
        h.sheltered.withUdp fun q _ hq => .of_running (hold q hq) hnot⟩
    by_cases hnewPeer : u.running = .newPeer p
    · have hp : InTable u p := .of_running (by rw [hpeers, Function.update_self]) hnot
      rw [DtlsServer.entered, show (s.withUdp u).udp.running = _ from hnewPeer] at hentered
      cases hentered
      refine ⟨hmoved.1.onNewPeer hstack ?_ _, hmoved.2.onNewPeer hp _⟩
      rw [show (s.withUdp u).udp.handle = _ from hhandle, hopen]
    · have htame : Tame (s.withUdp u) s' := by
        refine Tame.entered (fun q hq => ?_) hentered
        rcases hrun with hrun | hrun | ⟨it, hrun⟩
        · exact hnewPeer hrun
        · cases hrun.symm.trans hq
        · cases hrun.symm.trans hq
      exact ⟨hmoved.1.tame htame, hmoved.2.tame htame⟩

/-- A peer that times out has a client that is not in `m_clients`, or is open and removed. -/
theorem visit (hkeeps : s.Keeps (.visit answers)) (hstep : s.udpStep .visit answers = some s') :
    Guarded s' ∧ Sheltered s' := by
  obtain ⟨hstack, u, hu, hentered⟩ := udpStep_eq_some.mp hstep
  obtain ⟨-, hpeers, -, hhandle, hrun⟩ := UdpServer.visit_spec hu
  have htame : Tame (s.withUdp u) s' := by
    refine Tame.entered (fun p hp => ?_) hentered
    rcases hrun with hidle | ⟨q, htimeout⟩
    · cases hidle.symm.trans hp
    · cases htimeout.symm.trans hp
  refine ⟨(h.guarded.withUdp hhandle).tame htame, fun q hq => ?_⟩
  have hclient : q ∈ s.clients := htame.clients q hq
  have hpeer : u.peers q.id = some q := hpeers ▸ (h.inTable hstack hclient).1
  rw [htame.udp]
  change _ ∨ InTable u q
  rcases hrun with hidle | ⟨p, htimeout⟩
  · exact .inr (.of_running hpeer (by simp [hidle]))
  · by_cases hit : s.udp.peers p.id = some q
    · -- The client that is in `m_clients` is open, and `on_timeout` closes it.
      simp only [Keeps, hu, htimeout] at hkeeps
      obtain ⟨rfl, hopened⟩ := hkeeps q hclient hit
      rw [DtlsServer.entered, show (s.withUdp u).udp.running = _ from htimeout] at hentered
      dsimp only [onTimeout] at hentered
      split at hentered
      · cases hentered
      · cases hentered
        exact .inl (close_removes ((isOpen_withUdp hhandle).trans hopened) _ hq)
    · refine .inr ⟨hpeer, fun p' it hp' => ?_⟩
      cases htimeout.symm.trans hp'
      exact hit

theorem tick {e : UdpServer.Event ι}
    (he : (∃ index, e = .onTimer index) ∨ ∃ id, e = .inactivityOver id)
    (hstep : s.udpStep e answers = some s') : Guarded s' ∧ Sheltered s' := by
  obtain ⟨u, rfl, hpeers, -, hidle, hhandle⟩ := udpStep_tick he hstep
  refine ⟨h.guarded.withUdp hhandle, h.sheltered.withUdp fun q _ hq => ?_⟩
  exact .of_running (hpeers ▸ hq.1) (by simp [hidle])

theorem advance {clock : UInt64} (hu : s.udp.step (.advance clock) = some u) :
    Guarded (s.withUdp u) ∧ Sheltered (s.withUdp u) := by
  obtain ⟨hpeers, -, hrun, hhandle⟩ := UdpServer.tick_spec (.inr (.inr ⟨clock, rfl⟩)) hu
  refine ⟨h.guarded.withUdp hhandle, h.sheltered.withUdp fun q _ hq => ?_⟩
  exact ⟨hpeers ▸ hq.1, hrun ▸ hq.2⟩

/-- The clients of the server are closed one by one; none is in `m_clients` meanwhile. -/
theorem serverClose {order : List (UdpPeer ι)} (horder : order.isPerm s.clients = true) :
    Guarded ({ s with clients := [] }.push (.closing order)) ∧
      Sheltered ({ s with clients := [] }.push (.closing order)) := by
  refine ⟨⟨fun p hp => (by cases hp), ?_, fun p _ hp => (by cases hp), fun _ => rfl,
    h.guarded.touched⟩, fun p hp => (by cases hp)⟩
  intro ps hps p hp
  rcases List.mem_cons.mp hps with heq | hold
  · cases heq
    exact h.guarded.live p ((List.isPerm_iff.mp horder).mem_iff.mp hp)
  · exact h.guarded.closing ps hold p hp

/-- The peer of a client in `m_clients` is in the table, and so it is not removed. -/
theorem removal (hrest : s.AtRest)
    (hremoval : ((s.made p).any fun c => decide (0 < c.removals)) = true) :
    Guarded (s.onRemoval p) ∧ Sheltered (s.onRemoval p) := by
  refine ⟨⟨fun q hq => ?_, ?_, ?_, h.guarded.emptied, h.guarded.touched⟩, h.sheltered⟩
  · obtain ⟨c, hc, hd⟩ := h.guarded.live q hq
    by_cases heq : q = p
    · subst heq
      have hpos : 0 < c.removals := by simpa [hc] using hremoval
      have hshared := h.sound.shared q c hc (h.inTable hrest.1 hq).1
      have hzero := ((h.sound.counted q c hc).kept hshared).1
      omega
    · exact ⟨c, (made_onClient_of_ne s heq _).trans hc, hd⟩
  · intro ps hps
    rw [show (s.onRemoval p).stack = s.stack from rfl, hrest.1] at hps
    cases hps
  · intro q hq
    refine h.guarded.leaving q (hq.imp_right ?_)
    rintro ⟨c', hc', hmem⟩
    by_cases heq : q = p
    · subst heq
      rw [onRemoval, made_onClient_self] at hc'
      obtain ⟨c, hc, rfl⟩ := Option.map_eq_some_iff.mp hc'
      exact ⟨c, hc, hmem⟩
    · rw [onRemoval, made_onClient_of_ne s heq] at hc'
      exact ⟨c', hc', hmem⟩

theorem serverClosed (hrest : s.AtRest) (hclosing : s.udp.handle.closing = true) :
    Guarded (s.withUdp s.udp.onClose) ∧ Sheltered (s.withUdp s.udp.onClose) := by
  have hempty : (s.withUdp s.udp.onClose).clients = [] := h.guarded.emptied (.inr hclosing)
  refine ⟨⟨?_, ?_, ?_, fun _ => hempty, h.guarded.touched⟩, ?_⟩
  · simp [hempty]
  · intro ps hps
    rw [show (s.withUdp s.udp.onClose).stack = s.stack from rfl, hrest.1] at hps
    cases hps
  · simp [hempty]
  · simp [Sheltered, hempty]

theorem leave (hu : s.udp.step .leave = some u)
    (hentered : (s.withUdp u).entered answers = some s') : Guarded s' ∧ Sheltered s' := by
  obtain ⟨-, -, hhandle, hrun, hkept⟩ := UdpServer.leave_spec hu h.sound.announced
  exact h.entered hhandle (fun q hq => hkept q hq.1 hq.2) hrun hentered

/-- The peer of a client that has left is closed, and no other one in `m_clients`. -/
theorem closePeer (hstack : s.stack = .closePeer p :: rest)
    (hkeeps : ∀ q ∈ s.clients, s.udp.peers p.id = some q → q = p)
    (hclose : { s with stack := rest }.closePeer p = some s') : Guarded s' ∧ Sheltered s' := by
  have hremoving : p ∈ s.clients → StackFrame.removeClient p ∈ rest := by
    intro hp
    have hmem := h.guarded.leaving p (.inl (by simp [hstack])) hp
    simpa [hstack] using hmem
  obtain ⟨u, hu, rfl⟩ := Option.map_eq_some_iff.mp hclose
  obtain ⟨herases, hrun, hhandle⟩ := UdpServer.closePeer_spec hu
  have hguarded := (h.guarded.pop hstack (by simp)).withUdp hhandle
  have hsheltered : Sheltered ({ s with stack := rest }.withUdp u) := by
    intro q hq
    rcases h.sheltered.pop hstack (by simp) q hq with hold | htable
    · exact .inl hold
    · by_cases hid : q.id = p.id
      · cases hkeeps q hq (hid ▸ htable.1)
        exact .inl (hremoving hq)
      · exact .inr ⟨herases.kept htable.1 hid, hrun ▸ htable.2⟩
  have htame : Tame ({ s with stack := rest }.withUdp u) _ :=
    .onClient _ p (f := fun c => { c with peerClosed := true }) (fun _ => rfl) fun _ hc => hc
  exact ⟨hguarded.tame htame, hsheltered.tame htame⟩

theorem removeClient (hstack : s.stack = .removeClient p :: rest) :
    Guarded ({ s with stack := rest }.removeClient p) ∧
      Sheltered ({ s with stack := rest }.removeClient p) := by
  have hother : ∀ q, q ∈ ({ s with stack := rest }.removeClient p).clients →
      q ∈ s.clients ∧ (StackFrame.removeClient q ∈ s.stack → StackFrame.removeClient q ∈ rest) := by
    intro q hq
    obtain ⟨hmem, hne⟩ := List.mem_filter.mp hq
    refine ⟨hmem, fun hframe => ?_⟩
    rw [hstack] at hframe
    refine (List.mem_cons.mp hframe).resolve_left fun heq => ?_
    cases heq
    simp at hne
  have hold : ∀ frame ∈ rest, frame ∈ s.stack := by
    intro frame hframe
    rw [hstack]
    exact List.mem_cons_of_mem _ hframe
  refine ⟨⟨?_, ?_, ?_, ?_, h.guarded.touched⟩, ?_⟩
  · exact fun q hq => h.guarded.live q (hother q hq).1
  · exact fun ps hps => h.guarded.closing ps (hold _ hps)
  · intro q hq hclient
    exact (hother q hclient).2 (h.guarded.leaving q (hq.imp_left (hold _)) (hother q hclient).1)
  · intro hclosing
    have hempty := h.guarded.emptied (hclosing.imp_left fun ⟨ps, hps⟩ => ⟨ps, hold _ hps⟩)
    simp [DtlsServer.removeClient, hempty]
  · exact fun q hq => (h.sheltered q (hother q hq).1).imp_left (hother q hq).2

theorem closeNext {ps : List (UdpPeer ι)} (hstack : s.stack = .closing (p :: ps) :: rest)
    (call : ShutdownCall) :
    Guarded ({ s with stack := .closing ps :: rest }.closeNext p call) ∧
      Sheltered ({ s with stack := .closing ps :: rest }.closeNext p call) := by
  have hempty : s.clients = [] :=
    h.guarded.emptied (.inl ⟨p :: ps, by simp [hstack]⟩)
  have halive : ∀ q ∈ p :: ps, s.Alive q :=
    h.guarded.closing (p :: ps) (by simp [hstack])
  have hdeleted : s.isDeleted p = false := by
    obtain ⟨c, hc, hd⟩ := halive p List.mem_cons_self
    simp [isDeleted, hc, hd]
  have hnext : Guarded
      { s with
        stack := .closing ps :: rest
        touchedDeleted := s.touchedDeleted || s.isDeleted p } := by
    refine ⟨?_, ?_, ?_, fun _ => hempty, ?_⟩
    · simp [hempty]
    · intro qs hqs q hq
      rcases List.mem_cons.mp hqs with heq | hold
      · cases heq
        exact halive q (List.mem_cons_of_mem _ hq)
      · exact h.guarded.closing qs (by rw [hstack]; exact List.mem_cons_of_mem _ hold) q hq
    · simp [hempty]
    · simp [h.guarded.touched, hdeleted]
  refine ⟨hnext.tame (.close ..), Sheltered.tame ?_ (.close ..)⟩
  simp [Sheltered, hempty]

theorem closeUdp (hstack : s.stack = .closing [] :: rest) :
    Guarded { s with stack := rest, udp := s.udp.close (some []) } ∧
      Sheltered { s with stack := rest, udp := s.udp.close (some []) } := by
  have hempty : s.clients = [] := h.guarded.emptied (.inl ⟨[], by simp [hstack]⟩)
  have hpopped := h.guarded.pop hstack (by simp)
  refine ⟨⟨?_, hpopped.closing, ?_, fun _ => hempty, hpopped.touched⟩, ?_⟩
  · simp [hempty]
  · simp [hempty]
  · simp [Sheltered, hempty]

theorem resume (hkeeps : s.Keeps (.leave answers)) (hresume : s.resume answers = some s') :
    Guarded s' ∧ Sheltered s' := by
  unfold DtlsServer.resume at hresume
  split at hresume
  next hstack =>
    split at hresume
    · cases hresume
    · obtain ⟨u, hu, hentered⟩ := Option.bind_eq_some_iff.mp hresume
      exact h.leave hu hentered
  next p rest hstack =>
    simp only [Keeps, hstack] at hkeeps
    exact h.closePeer hstack hkeeps hresume
  next p rest hstack =>
    cases hresume
    exact h.removeClient hstack
  next p rest hstack =>
    cases hresume
    have htame : Tame { s with stack := rest }
        ({ s with stack := rest }.onClient p fun c => c.unref) := by
      refine .onClient _ p (fun c => ?_) fun c hmem => ?_
      · unfold DtlsConnectedClient.unref
        split <;> rfl
      · unfold DtlsConnectedClient.unref at hmem
        split at hmem <;> exact hmem
    exact ⟨(h.guarded.pop hstack (by simp)).tame htame,
      (h.sheltered.pop hstack (by simp)).tame htame⟩
  next p ps rest hstack =>
    cases hresume
    exact h.closeNext hstack answers.shutdown
  next rest hstack =>
    cases hresume
    exact h.closeUdp hstack
  next => cases hresume
  next => cases hresume

theorem pop {frame : StackFrame ι} (hstack : s.stack = frame :: rest)
    (hunref : ∀ p, frame ≠ .unref p) (hremove : ∀ p, frame ≠ .removeClient p) :
    Safe { s with stack := rest } :=
  ⟨h.sound.pop hstack hunref, h.guarded.pop hstack hremove, h.sheltered.pop hstack hremove⟩

theorem step {e : Event ι} (hkeeps : s.Keeps e) (hstep : s.step e = some s') : Safe s' := by
  suffices hnext : Guarded s' ∧ Sheltered s' from ⟨h.sound.step hstep, hnext.1, hnext.2⟩
  cases e with
  | close p call =>
      obtain ⟨-, rfl⟩ := step_close_eq_some.mp hstep
      exact h.tame (.close ..)
  | serverClose order =>
      obtain ⟨horder, rfl⟩ := step_serverClose_eq_some.mp hstep
      exact h.serverClose horder
  | send p result =>
      obtain ⟨-, rfl⟩ := step_send_eq_some.mp hstep
      exact h.tame (.sendData ..)
  | datagram id addedAt answers => exact h.datagram hstep
  | onTimer index => exact h.tick (.inl ⟨index, rfl⟩) hstep
  | visit answers => exact h.visit hkeeps hstep
  | inactivityOver id => exact h.tick (.inr ⟨id, rfl⟩) hstep
  | advance clock =>
      obtain ⟨u, hu, rfl⟩ := Option.map_eq_some_iff.mp hstep
      exact h.advance hu
  | sendDone p callback status =>
      obtain ⟨-, hsend, rfl⟩ := step_sendDone_eq_some.mp hstep
      exact h.tame (.onSend hsend status)
  | removal p =>
      obtain ⟨hrest, hremoval, rfl⟩ := step_removal_eq_some.mp hstep
      exact h.removal hrest hremoval
  | serverClosed =>
      obtain ⟨⟨hrest, -, hclosing⟩, rfl⟩ := step_serverClosed_eq_some.mp hstep
      exact h.serverClosed hrest hclosing
  | handshake call =>
      obtain ⟨p, rest, hstack, rfl⟩ := step_handshake_eq_some.mp hstep
      exact (h.pop hstack (by simp) (by simp)).tame (.afterSslDoHandshake ..)
  | read result =>
      obtain ⟨p, rest, hstack, rfl⟩ := step_read_eq_some.mp hstep
      cases result with
      | data => exact h.tame (.log ..)
      | dry => exact (h.pop hstack (by simp) (by simp)).tame (.refl _)
      | error reason => exact (h.pop hstack (by simp) (by simp)).tame (.log ..)
  | alert ret =>
      obtain ⟨p, -, rfl⟩ := step_alert_eq_some.mp hstep
      exact h.tame (.sslStateCallback ..)
  | leave answers => exact h.resume hkeeps hstep

end

end Safe

instance (s : DtlsServer ι) (e : Event ι) : Decidable (s.Keeps e) := by
  unfold Keeps
  repeat' split
  all_goals infer_instance

/-- A server that listens has no client yet. -/
theorem listen_safe (args : TrackingArgs) : Safe (listen ι args) where
  sound := by
    refine ⟨fun _ _ h => (by cases h), ?_, fun _ _ h => (by cases h), fun _ _ h => (by cases h)⟩
    intro p it hrun
    have hidle := (UdpServer.call_frame ({} : UdpServer ι) (.startReceiveTracked
      { args with hasNewPeerCallback := true, hasDataCallback := true })).2
    cases hidle.symm.trans hrun
  guarded :=
    ⟨fun _ h => (by cases h), fun _ h => (by cases h), fun _ _ h => (by cases h), fun _ => rfl, rfl⟩
  sheltered _ h := (by cases h)

/-- `m_clients` has no dead client, `connected_clients_count` counts only live ones, and `close`
has not gone through a dead one. -/
structure OnlyLive (s : DtlsServer ι) : Prop where
  alive : ∀ p ∈ s.clients, s.Alive p
  counted : s.connectedClientsCount = s.clients.countP fun p => decide (s.Alive p)
  untouched : s.touchedDeleted = false

theorem Safe.onlyLive (h : Safe s) : OnlyLive s where
  alive := h.guarded.live
  counted := (List.countP_eq_length.mpr fun p hp => decide_eq_true (h.guarded.live p hp)).symm
  untouched := h.guarded.touched

/-- The server keeps no dead client. -/
theorem clients_alive (args : TrackingArgs) (run : List (Event ι))
    (hkeeps : Along step Keeps (listen ι args) run) :
    Throughout step OnlyLive (listen ι args) run :=
  throughout_of_along (fun _ h => Safe.onlyLive h)
    (fun _ _ _ (h : Safe _) hgood hstep => h.step hgood hstep) (listen_safe args) hkeeps

def timedOutOpen : List (Event Nat) :=
  [.datagram 7 0 {}, .leave {}, .handshake { result := .done, writePending := false }, .leave {},
    .advance 2000000, .onTimer 0, .visit {}, .leave {}, .visit {}, .sendDone ⟨7, 0⟩ .shutdown {},
    .leave {}, .leave {}, .removal ⟨7, 0⟩, .datagram 8 2000000 {}]

theorem clients_alive_timedOutOpen :
    (∃ s ∈ exec step (listen Nat { timeoutMs := 1 }) timedOutOpen,
      s.clients = [⟨8, 1⟩] ∧ s.isDeleted ⟨7, 0⟩ = true) ∧
      Throughout step OnlyLive (listen Nat { timeoutMs := 1 }) timedOutOpen :=
  ⟨by decide +kernel, clients_alive { timeoutMs := 1 } timedOutOpen (by decide +kernel)⟩

/-- The peer times out before the handshake is finished, and then the server is closed. -/
def timedOutUnfinished : List (Event Nat) :=
  [.datagram 7 0 {}, .leave {}, .handshake { result := .wantRead }, .leave {},
    .sendDone ⟨7, 0⟩ .handshake {}, .leave {}, .advance 2000000, .onTimer 0, .visit {}, .leave {},
    .visit {}, .removal ⟨7, 0⟩, .serverClose [⟨7, 0⟩], .leave {}]

/-- A client that is open times out. While its shutdown is sent, its address connects again; then
the shutdown was sent, and the peer that is erased is the new one. -/
def connectedAgain : List (Event Nat) :=
  [.datagram 7 0 {}, .leave {}, .handshake { result := .done, writePending := false }, .leave {},
    .advance 2000000, .onTimer 0, .visit {}, .leave {}, .visit {}, .datagram 7 2000000 {},
    .leave {}, .handshake { result := .done, writePending := false }, .leave {},
    .sendDone ⟨7, 0⟩ .shutdown {}, .leave {}, .leave {}, .removal ⟨7, 1⟩]

/-- In the first run `close` goes through the dead client, in the second one the dead client is one
that is connected. -/
theorem dead_client_kept :
    ¬ Throughout step OnlyLive (listen Nat { timeoutMs := 1 }) timedOutUnfinished ∧
      ¬ Throughout step OnlyLive (listen Nat { timeoutMs := 1 }) connectedAgain := by
  constructor
  · intro hall
    obtain ⟨s, hs, htouched⟩ : ∃ s ∈ exec step (listen Nat { timeoutMs := 1 }) timedOutUnfinished,
        s.touchedDeleted = true := by
      decide +kernel
    cases (hall.last hs).untouched.symm.trans htouched
  · intro hall
    obtain ⟨s, hs, hclient, hdead⟩ : ∃ s ∈ exec step (listen Nat { timeoutMs := 1 }) connectedAgain,
        ⟨7, 1⟩ ∈ s.clients ∧ ¬ s.Alive ⟨7, 1⟩ := by
      decide +kernel
    exact hdead ((hall.last hs).alive _ hclient)

end DtlsServer

end TarmIo.Net
