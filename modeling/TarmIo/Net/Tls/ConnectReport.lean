import TarmIo.Foundation.Execution
import TarmIo.Net.Tls.Handshake

/-!
# The connect callback of `net/TlsClient.cpp`

A TLS client from a call of `connect` to the end of its TCP connection. The calls of
the connect callback are logged; the question is when there is exactly one. The
callback is never cleared, so every branch of the handshake code that reports,
reports again, and `on_close` says nothing as long as the handshake is not
finished.
-/

namespace TarmIo.Net.Tls

open Foundation

/-! ## Branches of the handshake code that report -/

def handshakeReports (effects : List SslEffect) : List Error :=
  effects.filterMap fun
    | .handshakeComplete => some {}
    | .handshakeFailed error => some error
    | _ => none

@[simp] theorem handshakeReports_nil : handshakeReports [] = [] := rfl

@[simp] theorem handshakeReports_append (xs ys : List SslEffect) :
    handshakeReports (xs ++ ys) = handshakeReports xs ++ handshakeReports ys :=
  List.filterMap_append

namespace SslClient

/-- `do_handshake` reports: not while the handshake is finishing; then on an error, and on
a result that leaves nothing to send or whose output cannot be sent. -/
def reportsHandshake (c : SslClient) (call : HandshakeCall) (send : Error) : Bool :=
  c.handshakeState != .finishing &&
    match call.result with
    | .wantRead | .done => (c.writeBio ++ call.produced).isEmpty || send.isError
    | .wantWrite => false
    | .error _ | .shutDown _ => true

/-- `on_data_receive` reports: never behind a finished handshake; before, if the read BIO
takes nothing or `do_handshake` reports. -/
def reportsData (c : SslClient) (writeSize : Int) (call : HandshakeCall) (send : Error) : Bool :=
  c.handshakeState != .finished && (decide (writeSize ≤ 0) || c.reportsHandshake call send)

/-- The completion of the oldest send reports: a failed send, or the send that ends the
handshake. -/
def reportsCompletion (c : SslClient) (status : Error) : Bool :=
  match c.sends.head? with
  | some .handshake => status.isError
  | some (.finishing _) => true
  | _ => false

theorem handshakeReports_pieces (offset : Nat) (pieces : List (List UInt8)) :
    handshakeReports (sslReadPieces offset pieces) = [] := by
  induction pieces generalizing offset with
  | nil => rfl
  | cons piece pieces ih => exact ih (offset + piece.length)

@[simp] theorem handshakeReports_readFromSsl (c : SslClient) (read : ReadLoop) :
    handshakeReports (c.readFromSsl read).2 = [] := by
  rw [readFromSsl, handshakeReports_append, handshakeReports_pieces]
  cases read.last <;> rfl

section

variable (c : SslClient)
include c

theorem handshakeReports_finishAndRead (readPending : Nat) (read : ReadLoop) :
    handshakeReports (c.finishAndRead readPending read).2 = [{}] := by
  unfold finishAndRead
  split
  · simp only [handshakeReports_append, handshakeReports_readFromSsl]
    rfl
  · rfl

theorem handshakeReports_runSendCallback (callback : SendCallback) (error : Error)
    (read : ReadLoop) :
    (handshakeReports (c.runSendCallback callback error read).2).length =
      match callback with
      | .ignored => 0
      | .handshake => error.isError.toNat
      | .finishing _ => 1 := by
  cases callback with
  | ignored => rfl
  | handshake =>
      simp only [runSendCallback]
      cases error.isError <;> rfl
  | finishing readPending =>
      simp only [runSendCallback]
      split
      · rfl
      · rw [handshakeReports_finishAndRead]
        rfl

/-- A send whose callback looks at the error reports when it is refused. -/
theorem handshakeReports_internal {onSend : SendCallback} (hcares : onSend ≠ .ignored)
    (send : Error) (read : ReadLoop) (hne : c.writeBio ≠ []) :
    (handshakeReports (c.internalReadFromSllAndSend onSend send read).2).length =
      send.isError.toNat := by
  rw [internalReadFromSllAndSend, if_neg hne]
  cases hsend : send.isError
  · rfl
  · rw [if_pos rfl, handshakeReports_runSendCallback]
    cases onSend with
    | ignored => exact absurd rfl hcares
    | handshake => rw [hsend]
    | finishing readPending => rfl

theorem handshakeReports_internal_ignored (send : Error) (read : ReadLoop) :
    handshakeReports (c.internalReadFromSllAndSend .ignored send read).2 = [] := by
  unfold internalReadFromSllAndSend
  split
  · rfl
  · split <;> rfl

theorem handshakeReports_doHandshake (call : HandshakeCall) (send : Error) (read : ReadLoop) :
    (handshakeReports (c.doHandshake call send read).2).length =
      (c.reportsHandshake call send).toNat := by
  by_cases hfin : c.handshakeState = .finishing
  · simp [doHandshake, reportsHandshake, hfin]
  · have hout : (c.sslDoHandshake call).writeBio = c.writeBio ++ call.produced := rfl
    rw [doHandshake, if_neg hfin, reportsHandshake]
    simp only [bne_iff_ne.mpr hfin, Bool.true_and]
    cases call.result with
    | done =>
        simp only [afterSslDoHandshake, hout]
        by_cases hnil : c.writeBio ++ call.produced = []
        · simp only [hnil, if_true, handshakeReports_finishAndRead]
          rfl
        · rw [if_neg hnil, handshakeReports_internal _ (by simp) send read hnil,
            List.isEmpty_eq_false_iff.mpr hnil, Bool.false_or]
    | wantRead =>
        simp only [afterSslDoHandshake, hout]
        by_cases hnil : c.writeBio ++ call.produced = []
        · simp only [hnil, if_true]
          rfl
        · rw [if_neg hnil, handshakeReports_internal _ (by simp) send read hnil,
            List.isEmpty_eq_false_iff.mpr hnil, Bool.false_or]
    | wantWrite => rfl
    | error reason =>
        simp only [afterSslDoHandshake, handshakeReports_append, handshakeReports_internal_ignored]
        rfl
    | shutDown reason => rfl

theorem handshakeReports_onDataReceive (data : List UInt8) (writeSize : Int) (call : HandshakeCall)
    (send : Error) (read : ReadLoop) :
    (handshakeReports (c.onDataReceive data writeSize call send read).2).length =
      (c.reportsData writeSize call send).toNat := by
  rw [onDataReceive, reportsData]
  by_cases hfinished : c.handshakeState = .finished
  · rw [if_pos hfinished, bne_eq_false_iff_eq.mpr hfinished]
    split
    · rfl
    · rw [handshakeReports_readFromSsl]
      rfl
  · rw [if_neg hfinished, bne_iff_ne.mpr hfinished, Bool.true_and]
    by_cases hsize : writeSize ≤ 0
    · rw [if_pos hsize, decide_eq_true hsize, Bool.true_or]
      rfl
    · rw [if_neg hsize, decide_eq_false hsize, Bool.false_or, handshakeReports_doHandshake]
      rfl

end

theorem handshakeReports_sendCompleted {c : SslClient} {status : Error} {read : ReadLoop}
    {r : SslClient × List SslEffect} (h : c.sendCompleted status read = some r) :
    (handshakeReports r.2).length = (c.reportsCompletion status).toNat := by
  cases hsends : c.sends with
  | nil => simp [sendCompleted, hsends] at h
  | cons callback rest =>
      simp only [sendCompleted, hsends, Option.some.injEq] at h
      subst h
      rw [handshakeReports_runSendCallback, reportsCompletion, hsends]
      cases callback <;> rfl

end SslClient

/-! ## The client -/

/-- Where a call of `connect` has got to. An initialisation error is reported by a
scheduled callback. The connection is over when it could not be established or was
closed. -/
inductive ConnectPhase where
  | initFailed (error : Error)
  | connecting
  | connected
  | ended
deriving DecidableEq

structure TlsClient where
  ssl : SslClient
  phase : ConnectPhase
  hasReceiveCallback : Bool
  hasCloseCallback : Bool
  connectCalls : List Error := []
  receiveCalls : List (Option (List UInt8) × Nat × Error) := []
  closeCalls : List Error := []
deriving DecidableEq

namespace TlsClient

/-- `connect` with a connect callback; `initError` is the first error of preparing the
context, the version range or the SSL object. -/
def connect (ssl : SslClient) (initError : Error) (hasReceiveCallback hasCloseCallback : Bool) :
    TlsClient where
  ssl := ssl
  phase := if initError.isError then .initFailed initError else .connecting
  hasReceiveCallback := hasReceiveCallback
  hasCloseCallback := hasCloseCallback

def callConnectCallback (t : TlsClient) (error : Error) : TlsClient :=
  { t with connectCalls := t.connectCalls ++ [error] }

/-- The overridden virtual functions. -/
def onEffect (t : TlsClient) : SslEffect → TlsClient
  | .send _ => t
  | .handshakeComplete => t.callConnectCallback {}
  | .handshakeFailed error => t.callConnectCallback error
  | .sslRead data offset error =>
      if t.hasReceiveCallback then
        { t with receiveCalls := t.receiveCalls ++ [(data, offset, error)] }
      else t

def withSsl (t : TlsClient) (r : SslClient × List SslEffect) : TlsClient :=
  r.2.foldl onEffect { t with ssl := r.1 }

def onClose (t : TlsClient) (error : Error) : TlsClient :=
  if t.ssl.handshakeState = .finished ∧ t.hasCloseCallback = true then
    { t with phase := .ended, closeCalls := t.closeCalls ++ [error], hasCloseCallback := false }
  else { t with phase := .ended }

end TlsClient

/-- What can happen to a connecting client. With a reset during connect, the TCP client
says that it is connected and then that it was closed, and refuses sends in
between. -/
inductive TlsEvent where
  | runScheduled
  | tcpConnectFailed (error : Error)
  | tcpConnected (call : HandshakeCall) (send : Error) (read : ReadLoop)
  | tcpConnectReset (call : HandshakeCall) (read : ReadLoop) (error : Error)
  | chunk (data : List UInt8) (writeSize : Int) (call : HandshakeCall) (send : Error)
      (read : ReadLoop)
  | sendCompleted (status : Error) (read : ReadLoop)
  | tcpClosed (error : Error)

namespace TlsClient

variable {t t' : TlsClient} {e : TlsEvent}

def step (t : TlsClient) (e : TlsEvent) : Option TlsClient :=
  match t.phase, e with
  | .initFailed error, .runScheduled => some { t.callConnectCallback error with phase := .ended }
  | .connecting, .tcpConnectFailed error =>
      if error.isError then some { t.callConnectCallback error with phase := .ended } else none
  | .connecting, .tcpConnected call send read =>
      some { t.withSsl (t.ssl.doHandshake call send read) with phase := .connected }
  | .connecting, .tcpConnectReset call read error =>
      some ((t.withSsl (t.ssl.doHandshake call (.ofCode .notConnected) read)).onClose error)
  | .connected, .chunk data writeSize call send read =>
      some (t.withSsl (t.ssl.onDataReceive data writeSize call send read))
  | .connected, .sendCompleted status read => (t.ssl.sendCompleted status read).map t.withSsl
  | .connected, .tcpClosed error => some (t.onClose error)
  | _, _ => none

/-- The callback is called at most once, and was called when the connection is over. -/
def ReportedOnce (t : TlsClient) : Prop :=
  t.connectCalls.length ≤ 1 ∧ (t.phase = .ended → t.connectCalls.length = 1)

/-- The step does not report once more, and does not end the connection unreported. -/
def ReportsInTime (t : TlsClient) : TlsEvent → Prop
  | .tcpConnectReset call _ _ => t.ssl.reportsHandshake call (.ofCode .notConnected) = true
  | .chunk _ writeSize call send _ =>
      t.connectCalls ≠ [] → t.ssl.reportsData writeSize call send = false
  | .sendCompleted status _ => t.connectCalls ≠ [] → t.ssl.reportsCompletion status = false
  | .tcpClosed _ => t.connectCalls ≠ []
  | _ => True

instance (t : TlsClient) (e : TlsEvent) : Decidable (t.ReportsInTime e) := by
  cases e <;> unfold ReportsInTime <;> infer_instance

theorem foldl_onEffect (t : TlsClient) (effects : List SslEffect) :
    (effects.foldl onEffect t).connectCalls = t.connectCalls ++ handshakeReports effects ∧
      (effects.foldl onEffect t).phase = t.phase := by
  induction effects generalizing t with
  | nil => simp
  | cons e es ih =>
      obtain ⟨hcalls, hphase⟩ := ih (t.onEffect e)
      rw [List.foldl_cons, hcalls, hphase]
      cases e with
      | send bytes => exact ⟨rfl, rfl⟩
      | handshakeComplete => exact ⟨by simp [onEffect, callConnectCallback, handshakeReports], rfl⟩
      | handshakeFailed error =>
          exact ⟨by simp [onEffect, callConnectCallback, handshakeReports], rfl⟩
      | sslRead data offset error =>
          simp only [onEffect]
          split <;> exact ⟨rfl, rfl⟩

theorem connectCalls_withSsl (t : TlsClient) (r : SslClient × List SslEffect) :
    (t.withSsl r).connectCalls.length =
      t.connectCalls.length + (handshakeReports r.2).length := by
  rw [withSsl, (foldl_onEffect _ r.2).1, List.length_append]

@[simp] theorem phase_withSsl (t : TlsClient) (r : SslClient × List SslEffect) :
    (t.withSsl r).phase = t.phase := (foldl_onEffect _ r.2).2

theorem onClose_spec (t : TlsClient) (error : Error) :
    (t.onClose error).connectCalls = t.connectCalls ∧ (t.onClose error).phase = .ended := by
  unfold onClose
  split <;> exact ⟨rfl, rfl⟩

def reportsOf (t : TlsClient) : TlsEvent → Nat
  | .runScheduled | .tcpConnectFailed _ => 1
  | .tcpConnected call send _ => (t.ssl.reportsHandshake call send).toNat
  | .tcpConnectReset call _ _ => (t.ssl.reportsHandshake call (.ofCode .notConnected)).toNat
  | .chunk _ writeSize call send _ => (t.ssl.reportsData writeSize call send).toNat
  | .sendCompleted status _ => (t.ssl.reportsCompletion status).toNat
  | .tcpClosed _ => 0

def isOpening : TlsEvent → Bool
  | .runScheduled | .tcpConnectFailed _ | .tcpConnected _ _ _ | .tcpConnectReset _ _ _ => true
  | _ => false

def isEnding : TlsEvent → Bool
  | .runScheduled | .tcpConnectFailed _ | .tcpConnectReset _ _ _ | .tcpClosed _ => true
  | _ => false

/-- Everything a step does to the calls of the callback and to the phase. -/
theorem step_spec (h : t.step e = some t') :
    t'.connectCalls.length = t.connectCalls.length + t.reportsOf e ∧
      t'.phase = (if isEnding e then .ended else .connected) ∧
      t.phase ≠ .ended ∧ (t.phase = .connected ↔ isOpening e = false) := by
  cases hphase : t.phase with
  | initFailed error =>
      cases e with
      | runScheduled =>
          simp only [step, hphase, Option.some.injEq] at h
          subst h
          simp [callConnectCallback, reportsOf, isEnding, isOpening]
      | _ => simp [step, hphase] at h
  | connecting =>
      cases e with
      | tcpConnectFailed error =>
          simp only [step, hphase, Option.ite_none_right_eq_some, Option.some.injEq] at h
          obtain ⟨_, rfl⟩ := h
          simp [callConnectCallback, reportsOf, isEnding, isOpening]
      | tcpConnected call send read =>
          simp only [step, hphase, Option.some.injEq] at h
          subst h
          simp [connectCalls_withSsl, SslClient.handshakeReports_doHandshake, reportsOf, isEnding,
            isOpening]
      | tcpConnectReset call read error =>
          simp only [step, hphase, Option.some.injEq] at h
          subst h
          rw [(onClose_spec _ error).1, (onClose_spec _ error).2, connectCalls_withSsl,
            SslClient.handshakeReports_doHandshake]
          simp [reportsOf, isEnding, isOpening]
      | _ => simp [step, hphase] at h
  | connected =>
      cases e with
      | chunk data writeSize call send read =>
          simp only [step, hphase, Option.some.injEq] at h
          subst h
          simp [connectCalls_withSsl, SslClient.handshakeReports_onDataReceive, reportsOf, isEnding,
            isOpening, hphase]
      | sendCompleted status read =>
          simp only [step, hphase, Option.map_eq_some_iff] at h
          obtain ⟨r, hr, rfl⟩ := h
          simp [connectCalls_withSsl, SslClient.handshakeReports_sendCompleted hr, reportsOf,
            isEnding, isOpening, hphase]
      | tcpClosed error =>
          simp only [step, hphase, Option.some.injEq] at h
          subst h
          simp [onClose_spec, reportsOf, isEnding, isOpening]
      | _ => simp [step, hphase] at h
  | ended => cases e <;> simp [step, hphase] at h

structure InTime (t : TlsClient) : Prop where
  once : t.ReportedOnce
  before : t.phase ≠ .connected → t.phase ≠ .ended → t.connectCalls = []

theorem InTime.opening_nil {t : TlsClient} (h : t.InTime) (hnot : t.phase ≠ .ended)
    (hopening : t.phase = .connected ↔ isOpening e = false) (he : isOpening e = true) :
    t.connectCalls = [] := by
  refine h.before (fun hconnected => ?_) hnot
  rw [hopening.mp hconnected] at he
  cases he

/-- A possible step keeps the promise exactly when it reports in time. -/
theorem reportedOnce_iff (h : t.InTime) (hstep : t.step e = some t') :
    t'.ReportedOnce ↔ t.ReportsInTime e := by
  obtain ⟨hcalls, hphase, hnot, hopening⟩ := step_spec hstep
  have hone := h.once.1
  have hnil : t.connectCalls ≠ [] ↔ t.connectCalls.length ≠ 0 := by simp
  have htwo : ∀ b : Bool, t.connectCalls.length + b.toNat ≤ 1 ↔
      (t.connectCalls ≠ [] → b = false) := by
    intro b
    rw [hnil]
    cases b <;> simp
    omega
  rw [ReportedOnce, hcalls, hphase]
  cases e with
  | runScheduled => simp [h.opening_nil hnot hopening rfl, reportsOf, isEnding, ReportsInTime]
  | tcpConnectFailed error =>
      simp [h.opening_nil hnot hopening rfl, reportsOf, isEnding, ReportsInTime]
  | tcpConnected call send read =>
      simp only [h.opening_nil hnot hopening rfl, reportsOf, isEnding, ReportsInTime]
      simp [Bool.toNat_le]
  | tcpConnectReset call read error =>
      simp only [h.opening_nil hnot hopening rfl, reportsOf, isEnding, ReportsInTime]
      cases t.ssl.reportsHandshake call (.ofCode .notConnected) <;> simp
  | chunk data writeSize call send read => simpa [reportsOf, isEnding, ReportsInTime] using htwo _
  | sendCompleted status read => simpa [reportsOf, isEnding, ReportsInTime] using htwo _
  | tcpClosed error =>
      simp only [reportsOf, isEnding, ReportsInTime, hnil]
      constructor
      · rintro ⟨_, hover⟩
        have hlen := hover rfl
        omega
      · intro hne
        exact ⟨by omega, fun _ => by omega⟩

theorem step_phase (hstep : t.step e = some t') : t'.phase = .connected ∨ t'.phase = .ended := by
  rw [(step_spec hstep).2.1]
  cases isEnding e
  · exact .inl rfl
  · exact .inr rfl

/-- The connect callback is called once by the end of the connection, and never twice before,
exactly when every step of the run reports in time. -/
theorem connect_reported_once_iff (ssl : SslClient) (initError : Error)
    (hasReceiveCallback hasCloseCallback : Bool) {events : List TlsEvent} {t : TlsClient}
    (hrun : exec step (connect ssl initError hasReceiveCallback hasCloseCallback) events =
      some t) :
    Throughout step ReportedOnce (connect ssl initError hasReceiveCallback hasCloseCallback)
        events ↔
      Along step ReportsInTime (connect ssl initError hasReceiveCallback hasCloseCallback)
        events := by
  have hstart : (connect ssl initError hasReceiveCallback hasCloseCallback).InTime := by
    refine ⟨⟨Nat.zero_le 1, fun hover => ?_⟩, fun _ _ => rfl⟩
    simp only [connect] at hover
    split at hover <;> cases hover
  refine throughout_iff_along (fun _ h => h.once) ?_ ?_ hstart hrun
  · intro s e s' h hgood hstep
    refine ⟨(reportedOnce_iff h hstep).mpr hgood, fun hc ho => ?_⟩
    rcases step_phase hstep with hphase | hphase
    · exact absurd hphase hc
    · exact absurd hphase ho
  · intro s e s' h hbad hstep honce
    exact hbad ((reportedOnce_iff h hstep).mp honce)

def noRead : ReadLoop := ⟨[], .wantRead, 0⟩

def helloSent : List TlsEvent :=
  [.tcpConnected ⟨.wantRead, [1], 0⟩ {} noRead, .sendCompleted {} noRead]

/-- The server closes the connection before the handshake is finished. -/
def closedEarly : List TlsEvent := helloSent ++ [.tcpClosed {}]

def garbageTwice : List TlsEvent :=
  helloSent ++
    [.chunk [0] 1 ⟨.error none, [], 1⟩ {} noRead, .chunk [0] 1 ⟨.error none, [], 1⟩ {} noRead]

/-- The result of connect is not reported in the first run and twice in the second. -/
theorem connect_report_missing_or_repeated :
    exec step (connect {} {} true true) closedEarly =
        some { connect {} {} true true with phase := .ended } ∧
      ¬ Throughout step ReportedOnce (connect {} {} true true) closedEarly ∧
      exec step (connect {} {} true true) garbageTwice =
        some { connect {} {} true true with
          phase := .connected
          connectCalls := [opensslError none, opensslError none] } ∧
      ¬ Throughout step ReportedOnce (connect {} {} true true) garbageTwice := by
  have hearly : exec step (connect {} {} true true) closedEarly =
      some { connect {} {} true true with phase := .ended } := by
    decide
  have htwice : exec step (connect {} {} true true) garbageTwice =
      some { connect {} {} true true with
        phase := .connected
        connectCalls := [opensslError none, opensslError none] } := by
    decide
  refine ⟨hearly, fun hall => ?_, htwice, fun hall => ?_⟩
  · exact absurd ((hall.last hearly).2 rfl) (by decide)
  · exact absurd (hall.last htwice).1 (by decide)

def handshakeDone : List TlsEvent :=
  helloSent ++
    [.chunk [2] 1 ⟨.done, [3], 1⟩ {} noRead, .sendCompleted {} noRead, .tcpClosed {}]

theorem connect_reported_once_iff_handshakeDone :
    Throughout step ReportedOnce (connect {} {} true true) handshakeDone ∧
      ∃ t ∈ exec step (connect {} {} true true) handshakeDone,
        t.phase = .ended ∧ t.connectCalls = [{}] := by
  have hrun : ∃ t ∈ exec step (connect {} {} true true) handshakeDone,
      t.phase = .ended ∧ t.connectCalls = [{}] := by decide
  obtain ⟨t, ht, hcalls⟩ := hrun
  exact ⟨(connect_reported_once_iff {} {} true true ht).mpr (by decide), t, ht, hcalls⟩

end TlsClient

end TarmIo.Net.Tls
