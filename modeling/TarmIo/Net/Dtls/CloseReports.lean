import TarmIo.Net.Dtls.LiveClients

/-!
# How often a DTLS connection is reported closed

The close callback is called for an alert, by a `close` whose `SSL_shutdown` fails, and when the
shutdown was sent. None of them looks whether it was called before, and a client stays open until
its shutdown was sent. So what decides is how many of them there are.
-/

namespace TarmIo.Net

open Foundation

namespace DtlsServer

open Dtls

variable {ι : Type*} [DecidableEq ι]

/-! ## Reports -/

def ofClient (p : UdpPeer ι) : Call ι → Bool
  | .closed q _ => decide (q = p)
  | _ => false

def closedReports (s : DtlsServer ι) (p : UdpPeer ι) : Nat := s.calls.countP (ofClient p)

omit [DecidableEq ι] in
def shutdowns (s : DtlsServer ι) (p : UdpPeer ι) : Nat :=
  match s.made p with
  | none => 0
  | some c => c.sends.count .shutdown

def reports (s : DtlsServer ι) (p : UdpPeer ι) : Nat := s.closedReports p + s.shutdowns p

def CloseReports (s : DtlsServer ι) (p : UdpPeer ι) (call : ShutdownCall) : Prop :=
  s.isOpen p = true ∧ (call.failure ≠ none ∨ call.writePending = true)

def AlertReports (s : DtlsServer ι) (p : UdpPeer ι) (ret : Nat) : Prop :=
  s.InSsl p ∧ ((s.made p).any fun c => c.sentShutdown) = false ∧ ret % 256 = closeNotify

def Reports (s : DtlsServer ι) (p : UdpPeer ι) : Event ι → Prop
  | .close q call => q = p ∧ s.CloseReports p call
  | .alert ret => s.AlertReports p ret
  | .visit answers =>
      match s.udp.step .visit with
      | none => False
      | some u =>
          match u.running with
          | .timeout q _ => q = p ∧ s.CloseReports p answers.shutdown
          | _ => False
  | .leave answers =>
      match s.stack with
      | .closing (q :: _) :: _ => q = p ∧ s.CloseReports p answers.shutdown
      | _ => False
  | _ => False

/-- Nothing leads to a report of a client that was or will be reported. -/
def Once (p : UdpPeer ι) (s : DtlsServer ι) (e : Event ι) : Prop :=
  s.Reports p e → s.reports p = 0

def Adds (reported : Prop) (n n' : Nat) : Prop := reported ∧ n' = n + 1 ∨ ¬ reported ∧ n' = n

theorem Adds.congr {reported reported' : Prop} {n n' : Nat} (h : Adds reported n n')
    (hiff : reported' ↔ reported) : Adds reported' n n' := by
  rwa [Adds, hiff]

theorem Adds.none {reported : Prop} {n n' : Nat} (hnot : ¬ reported) (h : n' = n) :
    Adds reported n n' :=
  .inr ⟨hnot, h⟩

/-! ## What the functions of the server report -/

variable {callback : SendCallback} {q : UdpPeer ι} {s t : DtlsServer ι} {p : UdpPeer ι}

theorem reports_log (s : DtlsServer ι) {call : Call ι} (hcall : ofClient p call = false) :
    (s.log call).reports p = s.reports p := by
  simp [reports, closedReports, shutdowns, log, hcall]

theorem reports_report (s : DtlsServer ι) (p q : UdpPeer ι) (error : Error) :
    Adds (q = p) (s.reports p) ((s.report q error).reports p) := by
  by_cases hq : q = p
  · subst hq
    refine .inl ⟨rfl, ?_⟩
    simp only [reports, closedReports, report, log, List.countP_append]
    simp [ofClient, shutdowns]
    omega
  · exact .none hq (reports_log s (by simp [ofClient, hq]))

omit [DecidableEq ι] in
theorem shutdowns_of_made {c : DtlsConnectedClient} (hc : s.made p = some c) :
    s.shutdowns p = c.sends.count .shutdown := by
  simp [shutdowns, hc]

/-- The other clients change. -/
theorem reports_onClient_of_ne (s : DtlsServer ι) {p q : UdpPeer ι} (hq : p ≠ q)
    (f : DtlsConnectedClient → DtlsConnectedClient) :
    (s.onClient q f).reports p = s.reports p := by
  rw [reports, shutdowns, made_onClient_of_ne s hq]
  rfl

theorem reports_onClient (s : DtlsServer ι) (p q : UdpPeer ι)
    {f : DtlsConnectedClient → DtlsConnectedClient}
    (hf : ∀ c, (f c).sends.count .shutdown = c.sends.count .shutdown) :
    (s.onClient q f).reports p = s.reports p := by
  by_cases hp : p = q
  · subst hp
    have hsent : (s.onClient p f).shutdowns p = s.shutdowns p := by
      cases hc : s.made p with
      | none => simp [shutdowns, hc]
      | some c => simp [shutdowns, hc, hf c]
    rw [reports, hsent]
    rfl
  · exact reports_onClient_of_ne s hp f

theorem reports_addSend (s : DtlsServer ι) (p q : UdpPeer ι) (hcallback : callback ≠ .shutdown) :
    (s.addSend q callback).reports p = s.reports p :=
  reports_onClient s p q fun c => by
    rw [List.count_append, List.count_singleton, if_neg (by simpa using hcallback), Nat.add_zero]

theorem reports_sendShutdown (p : UdpPeer ι) (hmade : s.made q ≠ none) :
    Adds (q = p) (s.reports p) ((s.addSend q .shutdown).reports p) := by
  by_cases hq : q = p
  · subst hq
    refine .inl ⟨rfl, ?_⟩
    obtain ⟨c, hc⟩ := Option.ne_none_iff_exists'.mp hmade
    have hc' : (s.addSend q .shutdown).made q =
        some { c.ref with sends := c.sends ++ [.shutdown] } := by
      rw [addSend, made_onClient_self, hc, Option.map_some]
    rw [reports, reports, shutdowns_of_made hc, shutdowns_of_made hc', List.count_append,
      List.count_singleton_self, ← Nat.add_assoc]
    rfl
  · exact .none hq (reports_onClient_of_ne s (Ne.symm hq) _)

section

variable (s : DtlsServer ι) (p q : UdpPeer ι)

theorem reports_close (call : ShutdownCall) :
    Adds (q = p ∧ s.CloseReports p call) (s.reports p) ((s.close q call).reports p) := by
  by_cases hopen : s.isOpen q = true
  · have hset : (s.onClient q fun c =>
        { c with sentShutdown := c.sentShutdown || call.sent }).reports p = s.reports p :=
      reports_onClient s p q fun _ => rfl
    have hreports : call.failure ≠ none ∨ call.writePending = true →
        (q = p ∧ s.CloseReports p call ↔ q = p) := by
      refine fun hcall => and_iff_left_of_imp ?_
      rintro rfl
      exact ⟨hopen, hcall⟩
    rw [close, if_neg (by simp [hopen])]
    dsimp only
    rw [← hset]
    split
    next reason hfailure =>
      exact (reports_report _ p q _).congr (hreports (.inl (by simp [hfailure])))
    next hfailure =>
      split
      next hpending =>
        refine .none ?_ rfl
        simpa [CloseReports, hfailure] using fun _ _ => hpending
      next hpending =>
        have hcall := hreports (.inr (by simpa using hpending))
        split
        · exact (reports_report _ p q _).congr hcall
        · refine (reports_sendShutdown p ?_).congr hcall
          have hmade : s.made q ≠ none := by
            intro hnone
            simp [isOpen, hnone] at hopen
          simpa using hmade
  · rw [close, if_pos (by simpa using hopen)]
    refine .none ?_ rfl
    rintro ⟨rfl, hcall⟩
    exact hopen hcall.1

theorem reports_sslStateCallback (ret : Nat) :
    Adds (q = p ∧ ((s.made p).any fun c => c.sentShutdown) = false ∧ ret % 256 = closeNotify)
      (s.reports p) ((s.sslStateCallback q ret).reports p) := by
  unfold sslStateCallback onAlert
  split
  next hsent =>
    refine .none ?_ rfl
    rintro ⟨rfl, hnot, -⟩
    simp [hnot] at hsent
  next hsent =>
    split
    next hcode =>
      refine (reports_report (s.removeClient q) p q _).congr (and_iff_left_of_imp ?_)
      rintro rfl
      exact ⟨by simpa using hsent, hcode⟩
    next hcode => exact .none (fun h => hcode h.2.2) rfl

theorem reports_finishAndRead (readPending : Bool) :
    (s.finishAndRead q readPending).reports p = s.reports p := by
  have hfinished : (s.finishHandshake q).reports p = s.reports p :=
    (reports_log _ rfl).trans (reports_onClient s p q fun _ => rfl)
  unfold finishAndRead
  split <;> exact hfinished

theorem reports_runSendCallback (hcallback : callback ≠ .shutdown) (error : Error) :
    (s.runSendCallback q callback error).reports p = s.reports p := by
  cases callback with
  | handshake =>
      dsimp only [runSendCallback]
      split
      · exact reports_log _ rfl
      · rfl
  | finishing readPending =>
      dsimp only [runSendCallback]
      split
      · exact reports_log _ rfl
      · exact reports_finishAndRead ..
  | ignored => rfl
  | shutdown => exact absurd rfl hcallback
  | data => exact reports_log _ rfl

theorem reports_sendHandshake (hcallback : callback ≠ .shutdown) (send : Error) :
    (s.sendHandshake q callback send).reports p = s.reports p := by
  unfold sendHandshake
  split
  · exact reports_runSendCallback s p q hcallback send
  · exact reports_addSend s p q hcallback

theorem reports_afterSslDoHandshake (call : HandshakeCall) :
    (s.afterSslDoHandshake q call).reports p = s.reports p := by
  unfold afterSslDoHandshake
  split
  · split
    · exact reports_log _ rfl
    · exact reports_sendHandshake s p q (by simp) _
  · rfl
  · split
    · exact (reports_log _ rfl).trans (reports_sendHandshake s p q (by simp) _)
    · exact reports_log _ rfl
  · split
    · exact (reports_sendHandshake _ p q (by simp) _).trans
        (reports_onClient s p q fun _ => rfl)
    · exact reports_finishAndRead ..
  · exact reports_log _ rfl

theorem reports_sendData (result : WriteResult) :
    (s.sendData q result).reports p = s.reports p := by
  unfold sendData
  split
  · exact reports_log _ rfl
  · cases result with
    | failed reason => exact reports_log _ rfl
    | nothing => exact reports_log _ rfl
    | written send =>
        dsimp only
        split
        · exact reports_log _ rfl
        · exact reports_addSend s p q (by simp)

end

/-- The report of a shutdown that was sent is made. -/
theorem reports_onSend (p : UdpPeer ι) (hsend : s.hasSend q callback = true) (status : Error) :
    (s.onSend q callback status).reports p = s.reports p := by
  by_cases hcallback : callback = .shutdown
  · subst hcallback
    let erased := s.onClient q fun c => { c with sends := c.sends.erase .shutdown }
    have hstep : (s.onSend q .shutdown status).reports p = (erased.report q {}).reports p := rfl
    rw [hstep]
    rcases reports_report erased p q {} with ⟨rfl, hreport⟩ | ⟨hq, hreport⟩
    · rw [hreport]
      obtain ⟨c, hc, hmem⟩ : ∃ c, s.made q = some c ∧ SendCallback.shutdown ∈ c.sends := by
        simpa [hasSend, Option.any_eq_true] using hsend
      have hpos : 0 < c.sends.count .shutdown := List.count_pos_iff.mpr hmem
      have hc' : erased.made q = some { c with sends := c.sends.erase .shutdown } := by
        rw [made_onClient_self, hc, Option.map_some]
      have hcalls : erased.closedReports q = s.closedReports q := rfl
      rw [reports, reports, shutdowns_of_made hc, shutdowns_of_made hc', List.count_erase_self,
        hcalls]
      omega
    · rw [hreport]
      exact reports_onClient_of_ne s (Ne.symm hq) _
  · refine (reports_runSendCallback _ p q hcallback status).trans ?_
    exact reports_onClient s p q fun c => List.count_erase_of_ne (Ne.symm hcallback)

theorem reports_onDataReceive {written : Bool} (h : s.onDataReceive q written = some t)
    (p : UdpPeer ι) : t.reports p = s.reports p := by
  unfold onDataReceive at h
  split at h
  · cases h
  · split at h
    · cases h
      split <;> rfl
    · split at h
      · cases h
        exact reports_log _ rfl
      · split at h <;> cases h <;> rfl

theorem reports_withUdp (s : DtlsServer ι) (u : UdpServer ι) (p : UdpPeer ι) :
    (s.withUdp u).reports p = s.reports p := by
  have hsent : (s.withUdp u).shutdowns p = s.shutdowns p := by
    cases hc : s.made p with
    | none => simp [shutdowns, withUdp, hc]
    | some c =>
        obtain ⟨c', hc', -, hsends, -⟩ := made_withUdp (u := u) hc
        rw [shutdowns_of_made hc, shutdowns_of_made hc', hsends]
  rw [reports, hsent]
  rfl

/-- A new client was never reported. -/
theorem reports_onNewPeer (hnew : s.made q = none) (init : Error) (p : UdpPeer ι) :
    (s.onNewPeer q init).reports p = s.reports p := by
  have hadded : shutdowns
      { s with
        made := Function.update s.made q (some { sslInited := !init.isError })
        clients := s.clients ++ [q] } p = s.shutdowns p := by
    by_cases hq : p = q
    · subst hq
      simp [shutdowns, hnew]
    · simp [shutdowns, Function.update_of_ne hq]
  unfold onNewPeer
  dsimp only
  split
  · refine (reports_log _ rfl).trans ?_
    rw [reports, hadded]
    rfl
  · rw [reports, hadded]
    rfl

/-! ## Steps -/

variable {answers : Answers}

/-- The UDP server calls no callback but the one for data. -/
theorem reports_entered (hrun : s.udp.running = .idle ∨ ∃ q, s.udp.running = .data q)
    (h : s.entered answers = some t) (p : UdpPeer ι) : t.reports p = s.reports p := by
  rcases hrun with hidle | ⟨q, hdata⟩
  · rw [entered, hidle] at h
    cases h
    rfl
  · rw [entered, hdata] at h
    exact reports_onDataReceive h p

theorem reports_datagram (h : Sound s) {id : ι} {addedAt : UInt64}
    (hstep : s.udpStep (.datagram id addedAt) answers = some t) (p : UdpPeer ι) :
    t.reports p = s.reports p := by
  obtain ⟨-, u, hu, hentered⟩ := udpStep_eq_some.mp hstep
  obtain ⟨-, -, hsame | hnew⟩ := UdpServer.datagram_spec hu
  · exact (reports_entered hsame.2.2 hentered p).trans (reports_withUdp s u p)
  · obtain ⟨q, hserial, -, -, -, -, hrun⟩ := hnew
    have hnone : (s.withUdp u).made q = none := by
      simp [withUdp, h.made_eq_none hserial]
    rcases hrun with hnewPeer | hdata | ⟨it, htimeout⟩
    · rw [entered, show (s.withUdp u).udp.running = _ from hnewPeer] at hentered
      cases hentered
      exact (reports_onNewPeer hnone _ p).trans (reports_withUdp s u p)
    · exact (reports_entered (.inr ⟨q, hdata⟩) hentered p).trans (reports_withUdp s u p)
    · rw [entered, show (s.withUdp u).udp.running = _ from htimeout] at hentered
      dsimp only [onTimeout] at hentered
      rw [hnone] at hentered
      cases hentered

theorem reports_visit (hstep : s.udpStep .visit answers = some t) (p : UdpPeer ι) :
    Adds (s.Reports p (.visit answers)) (s.reports p) (t.reports p) := by
  obtain ⟨-, u, hu, hentered⟩ := udpStep_eq_some.mp hstep
  obtain ⟨-, -, -, hhandle, hrun⟩ := UdpServer.visit_spec hu
  rw [← reports_withUdp s u p]
  rcases hrun with hidle | ⟨q, htimeout⟩
  · refine .none ?_ (reports_entered (.inl hidle) hentered p)
    simp [Reports, hu, hidle]
  · rw [entered, show (s.withUdp u).udp.running = _ from htimeout] at hentered
    dsimp only [onTimeout] at hentered
    split at hentered
    · cases hentered
    · cases hentered
      refine (reports_close _ p q _).congr ?_
      simp [Reports, hu, htimeout, CloseReports, isOpen_withUdp hhandle]

theorem reports_resume (h : Sound s) (hresume : s.resume answers = some t) (p : UdpPeer ι) :
    Adds (s.Reports p (.leave answers)) (s.reports p) (t.reports p) := by
  unfold resume at hresume
  split at hresume
  next hstack =>
    split at hresume
    · cases hresume
    · obtain ⟨u, hu, hentered⟩ := Option.bind_eq_some_iff.mp hresume
      obtain ⟨-, -, -, hrun, -⟩ := UdpServer.leave_spec hu h.announced
      refine .none (by simp [Reports, hstack]) ?_
      exact (reports_entered hrun hentered p).trans (reports_withUdp s u p)
  next q rest hstack =>
    obtain ⟨u, -, rfl⟩ := Option.map_eq_some_iff.mp hresume
    refine .none (by simp [Reports, hstack]) ?_
    refine (reports_onClient _ p q ?_).trans (reports_withUdp { s with stack := rest } u p)
    exact fun _ => rfl
  next q rest hstack =>
    cases hresume
    exact .none (by simp [Reports, hstack]) rfl
  next q rest hstack =>
    cases hresume
    refine .none (by simp [Reports, hstack]) ?_
    refine reports_onClient { s with stack := rest } p q fun c => ?_
    unfold DtlsConnectedClient.unref
    split <;> rfl
  next q ps rest hstack =>
    cases hresume
    refine (reports_close _ p q _).congr ?_
    simp only [Reports, hstack]
    rfl
  next rest hstack =>
    cases hresume
    exact .none (by simp [Reports, hstack]) rfl
  next => cases hresume
  next => cases hresume

omit [DecidableEq ι] in
/-- OpenSSL works for one client. -/
theorem InSsl.unique {p q : UdpPeer ι} (hp : s.InSsl p) (hq : s.InSsl q) : p = q := by
  rcases hp with hp | hp <;> rcases hq with hq | hq <;> cases hp.symm.trans hq <;> rfl

/-- Every step adds what it reports. -/
theorem reports_step {e : Event ι} (h : Sound s) (hstep : s.step e = some t) (p : UdpPeer ι) :
    Adds (s.Reports p e) (s.reports p) (t.reports p) := by
  cases e with
  | close q call =>
      obtain ⟨-, rfl⟩ := step_close_eq_some.mp hstep
      exact reports_close s p q call
  | serverClose order =>
      obtain ⟨-, rfl⟩ := step_serverClose_eq_some.mp hstep
      exact .none id rfl
  | send q result =>
      obtain ⟨-, rfl⟩ := step_send_eq_some.mp hstep
      exact .none id (reports_sendData s p q result)
  | datagram address addedAt answers => exact .none id (reports_datagram h hstep p)
  | onTimer index =>
      obtain ⟨u, rfl, -⟩ := udpStep_tick (.inl ⟨index, rfl⟩) hstep
      exact .none id (reports_withUdp s u p)
  | visit answers => exact reports_visit hstep p
  | inactivityOver address =>
      obtain ⟨u, rfl, -⟩ := udpStep_tick (.inr ⟨address, rfl⟩) hstep
      exact .none id (reports_withUdp s u p)
  | advance clock =>
      obtain ⟨u, -, rfl⟩ := Option.map_eq_some_iff.mp hstep
      exact .none id (reports_withUdp s u p)
  | sendDone q callback status =>
      obtain ⟨-, hsend, rfl⟩ := step_sendDone_eq_some.mp hstep
      exact .none id (reports_onSend p hsend status)
  | removal q =>
      obtain ⟨-, -, rfl⟩ := step_removal_eq_some.mp hstep
      exact .none id (reports_onClient s p q fun _ => rfl)
  | serverClosed =>
      obtain ⟨-, rfl⟩ := step_serverClosed_eq_some.mp hstep
      exact .none id (reports_withUdp s _ p)
  | handshake call =>
      obtain ⟨q, rest, -, rfl⟩ := step_handshake_eq_some.mp hstep
      exact .none id (reports_afterSslDoHandshake { s with stack := rest } p q call)
  | read result =>
      obtain ⟨q, rest, -, rfl⟩ := step_read_eq_some.mp hstep
      refine .none id ?_
      cases result with
      | data => exact reports_log _ rfl
      | dry => rfl
      | error reason => exact reports_log { s with stack := rest } rfl
  | alert ret =>
      obtain ⟨q, hssl, rfl⟩ := step_alert_eq_some.mp hstep
      refine (reports_sslStateCallback s p q ret).congr (and_congr_left' ?_)
      refine ⟨hssl.unique, ?_⟩
      rintro rfl
      exact hssl
  | leave answers => exact reports_resume h hstep p

/-! ## Runs -/

instance (s : DtlsServer ι) (p : UdpPeer ι) (call : ShutdownCall) :
    Decidable (s.CloseReports p call) :=
  inferInstanceAs (Decidable (_ ∧ _))

instance (s : DtlsServer ι) (p : UdpPeer ι) (ret : Nat) : Decidable (s.AlertReports p ret) :=
  inferInstanceAs (Decidable ((_ ∨ _) ∧ _))

instance (s : DtlsServer ι) (p : UdpPeer ι) : ∀ e, Decidable (s.Reports p e)
  | .close .. => inferInstanceAs (Decidable (_ ∧ _))
  | .alert ret => inferInstanceAs (Decidable (s.AlertReports p ret))
  | .visit answers =>
      match hu : s.udp.step .visit with
      | none => .isFalse (by simp [Reports, hu])
      | some u =>
          match hrun : u.running with
          | .timeout q _ =>
              decidable_of_iff (q = p ∧ s.CloseReports p answers.shutdown)
                (by simp [Reports, hu, hrun])
          | .idle | .newPeer _ | .data _ | .timeoutInAdd .. =>
              .isFalse (by simp [Reports, hu, hrun])
  | .leave answers =>
      match hstack : s.stack with
      | .closing (q :: _) :: _ =>
          decidable_of_iff (q = p ∧ s.CloseReports p answers.shutdown) (by simp [Reports, hstack])
      | [] | .closing [] :: _ | .closePeer _ :: _ | .removeClient _ :: _ | .unref _ :: _ =>
          .isFalse (by simp [Reports, hstack])
      | .handshaking _ :: _ | .reading _ :: _ => .isFalse (by simp [Reports, hstack])
  | .serverClose _ | .send .. | .datagram .. | .onTimer _ | .inactivityOver _ => .isFalse id
  | .advance _ | .sendDone .. | .removal _ | .serverClosed => .isFalse id
  | .handshake _ | .read _ => .isFalse id

instance (p : UdpPeer ι) (s : DtlsServer ι) (e : Event ι) : Decidable (Once p s e) :=
  inferInstanceAs (Decidable (_ → _))

theorem once_iff {e : Event ι} (h : Adds (s.Reports p e) (s.reports p) (t.reports p)) :
    t.reports p ≤ 1 ↔ s.reports p ≤ 1 ∧ Once p s e := by
  rcases h with ⟨hreports, heq⟩ | ⟨hnot, heq⟩
  · rw [heq, Once]
    constructor
    · intro hle
      exact ⟨by omega, fun _ => by omega⟩
    · intro honce
      have hzero := honce.2 hreports
      omega
  · rw [heq, Once]
    exact (and_iff_left fun hreports => absurd hreports hnot).symm

theorem reports_le_one_iff (args : TrackingArgs) {run : List (Event ι)}
    (h : exec step (listen ι args) run = some s) (p : UdpPeer ι) :
    s.reports p ≤ 1 ↔ Along step (Once p) (listen ι args) run := by
  have hreckoned := exec_iff_along (P := fun s => s.reports p ≤ 1)
    (fun _ _ _ (hs : Sound _) hstep => hs.step hstep)
    (fun _ _ _ hs hstep => once_iff (reports_step hs hstep p)) (listen_safe args).sound h
  rw [hreckoned]
  exact and_iff_right (Nat.zero_le 1)

/-- A connection is reported closed at most once when nothing that reports it comes after it was
reported, or while its shutdown is sent; and, once no shutdown is being sent, only then. -/
theorem closed_reported_once_iff (args : TrackingArgs) (run : List (Event ι)) (s : DtlsServer ι)
    (h : exec step (listen ι args) run = some s) (p : UdpPeer ι) :
    (Along step (Once p) (listen ι args) run → s.closedReports p ≤ 1) ∧
      (s.hasSend p .shutdown = false →
        (s.closedReports p ≤ 1 ↔ Along step (Once p) (listen ι args) run)) := by
  have hiff := reports_le_one_iff args h p
  constructor
  · intro honce
    exact (Nat.le_add_right ..).trans (hiff.mpr honce)
  · intro hsent
    have hnone : s.shutdowns p = 0 := by
      cases hc : s.made p with
      | none => simp [shutdowns, hc]
      | some c =>
          rw [shutdowns_of_made hc]
          exact List.count_eq_zero.mpr (by simpa [hasSend, hc] using hsent)
    rw [← hiff, reports, hnone, Nat.add_zero]

/-- The user closes the client, and an alert comes while its shutdown is sent. -/
def closedThenAlert : List (Event Nat) :=
  [.datagram 7 0 {}, .leave {}, .handshake { result := .done, writePending := false }, .leave {},
    .close ⟨7, 0⟩ {}, .datagram 7 0 {}, .alert 256, .read .dry, .leave {},
    .sendDone ⟨7, 0⟩ .shutdown {}, .leave {}, .leave {}]

theorem closed_reported_once_iff_closedThenAlert :
    ∃ s ∈ exec step (listen Nat { timeoutMs := 1 }) closedThenAlert,
      s.closedReports ⟨7, 0⟩ = 1 ∧ s.closedReports ⟨7, 0⟩ ≤ 1 := by
  obtain ⟨s, hs, hone⟩ : ∃ s ∈ exec step (listen Nat { timeoutMs := 1 }) closedThenAlert,
      s.closedReports ⟨7, 0⟩ = 1 := by
    decide +kernel
  exact ⟨s, hs, hone, (closed_reported_once_iff _ _ s hs ⟨7, 0⟩).1 (by decide +kernel)⟩

def alertThenClosed : List (Event Nat) :=
  [.datagram 7 0 {}, .leave {}, .handshake { result := .done, writePending := false }, .leave {},
    .datagram 7 0 {}, .alert 256, .close ⟨7, 0⟩ {}, .read .dry, .leave {},
    .sendDone ⟨7, 0⟩ .shutdown {}]

def closedTwice : List (Event Nat) :=
  [.datagram 7 0 {}, .leave {}, .handshake { result := .done, writePending := false }, .leave {},
    .close ⟨7, 0⟩ {}, .close ⟨7, 0⟩ { failure := some none }, .sendDone ⟨7, 0⟩ .shutdown {}]

theorem closed_reported_twice :
    (∃ s ∈ exec step (listen Nat { timeoutMs := 1 }) alertThenClosed,
        s.closedReports ⟨7, 0⟩ = 2 ∧
          s.calls = [.newConnection ⟨7, 0⟩ {}, .closed ⟨7, 0⟩ {}, .closed ⟨7, 0⟩ {}]) ∧
      ∃ s ∈ exec step (listen Nat { timeoutMs := 1 }) closedTwice,
        s.closedReports ⟨7, 0⟩ = 2 ∧
          s.calls = [.newConnection ⟨7, 0⟩ {}, .closed ⟨7, 0⟩ (Tls.opensslError none),
            .closed ⟨7, 0⟩ {}] := by
  decide +kernel

end DtlsServer

end TarmIo.Net
