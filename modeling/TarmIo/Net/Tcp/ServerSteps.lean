import TarmIo.Net.Tcp.TcpServer

/-!
# What the steps of a `TcpServer` leave alone

The end of the service is a matter of `close`, `shutdown` and `schedule_removal`, of the close
callback of the listening handle, and of the callbacks that these schedule. The handlers of the
clients change the set of clients at most.
-/

namespace TarmIo.Net.Tcp.TcpServer

def Job.isEnding : Job → Bool
  | .notConnected | .onClose | .ended _ => true
  | .readFailed .. => false

def Job.endCallback : Job → Option Nat
  | .ended callback => some callback
  | .notConnected | .onClose | .readFailed .. => none

structure Service where
  handle : Option Listener
  isOpen : Bool
  endServerCallback : Option Nat
  connections : Finset Nat
  jobs : List Job
  passed : List Nat
  endings : List Call
  nullEndCalls : Nat

def service (s : TcpServer) : Service where
  handle := s.handle
  isOpen := s.isOpen
  endServerCallback := s.endServerCallback
  connections := s.clientConnections
  jobs := s.scheduled.filter Job.isEnding
  passed := s.passed
  endings := s.calls.filter fun call => call.endCallback.isSome
  nullEndCalls := s.nullEndCalls

namespace Service

def request (v : Service) (callback : Option Nat) : Service :=
  if v.handle.any fun listener => !listener.isClosing then
    { v with
      endServerCallback := callback
      passed := v.passed ++ callback.toList
      handle := some .closing
      isOpen := false }
  else
    { v with
      endServerCallback := callback
      passed := v.passed ++ callback.toList
      jobs := v.jobs ++ callback.toList.map fun _ => .notConnected
      isOpen := false }

/-- The close callback of the listening handle. -/
def close (v : Service) : Service :=
  if v.connections ≠ ∅ then { v with jobs := v.jobs ++ [.onClose] }
  else
    { v with
      endServerCallback := none
      handle := none
      jobs := v.jobs ++ v.endServerCallback.toList.map .ended }

def logEnd (v : Service) (callback : Nat) (error : Error) : Service :=
  { v with endings := v.endings ++ [.ended callback error v.connections] }

def run (v : Service) : Job → Service
  | .notConnected =>
      match v.endServerCallback with
      | none => { v with nullEndCalls := v.nullEndCalls + 1 }
      | some callback => v.logEnd callback (.ofCode .notConnected)
  | .onClose => v.close
  | .ended callback => v.logEnd callback {}
  | .readFailed .. => v

variable {v : Service}

theorem isOpen_request (callback : Option Nat) : (v.request callback).isOpen = false := by
  unfold request
  split <;> rfl

theorem isOpen_close : v.close.isOpen = v.isOpen := by
  unfold close
  split <;> rfl

/-- The scheduled callbacks other than `on_close` are calls of the user's callbacks. -/
theorem run_frame {job : Job} (hjob : job ≠ .onClose) :
    (v.run job).handle = v.handle ∧ (v.run job).isOpen = v.isOpen := by
  cases job with
  | onClose => exact absurd rfl hjob
  | notConnected =>
      rw [run]
      split <;> exact ⟨rfl, rfl⟩
  | ended | readFailed => exact ⟨rfl, rfl⟩

end Service

variable {s : TcpServer}

/-! ## The handlers of the clients -/

variable {next : TcpServer → TcpServer} {t : TcpServer}

@[simp] theorem service_onClient (s : TcpServer) (i : Nat)
    (f : TcpConnectedClient → TcpConnectedClient) : (s.onClient i f).service = s.service := rfl

@[simp] theorem service_advance (s : TcpServer) (i : Nat) (size : UInt64) :
    (s.advance i size).service = s.service := rfl

@[simp] theorem service_finishReadError (s : TcpServer) (i : Nat) :
    (s.finishReadError i).service = s.service := rfl

/-- Callbacks that are not end callbacks leave the service to what comes after them. -/
theorem service_invoke {call : Call} (hcall : call.endCallback = none) {callback : Bool}
    {frame : Frame} (hnext : (next s).service = s.service) :
    (s.invoke callback call frame next).service = s.service := by
  unfold invoke
  split
  · simp [service, log, hcall]
  · exact hnext

@[simp] theorem service_startRead (s : TcpServer) (i : Nat) (readStart : Error) :
    (s.startRead i readStart).service = s.service := by
  unfold startRead
  split
  · simp [service, schedule, onClient, Job.isEnding]
  · rfl

@[simp] theorem service_finishAccept (s : TcpServer) (i : Nat) (readStart : Error) :
    (s.finishAccept i readStart).service = s.service := by
  unfold finishAccept
  split
  · exact service_startRead s i readStart
  · rfl

@[simp] theorem service_reportReset (s : TcpServer) (i : Nat) :
    (s.reportReset i).service = s.service :=
  service_invoke rfl rfl

theorem service_onNewConnection (s : TcpServer) (uv : UvAccept) :
    ∃ connections, (s.onNewConnection uv).service =
      { s.service with connections := connections } := by
  unfold onNewConnection invokeUnchecked
  repeat' split
  · exact ⟨_, service_invoke rfl rfl⟩
  · exact ⟨_, service_invoke rfl rfl⟩
  · exact ⟨_, service_invoke rfl rfl⟩
  · exact ⟨_, service_invoke rfl rfl⟩
  · exact ⟨_, service_invoke rfl rfl⟩
  · exact ⟨insert s.created s.clientConnections, service_invoke rfl (service_finishAccept _ _ _)⟩

@[simp] theorem service_onData (s : TcpServer) (i : Nat) (size : UInt64) :
    (s.onData i size).service = s.service := by
  unfold onData
  split
  · rfl
  · exact service_invoke rfl rfl

theorem service_onReadError (hnext : (next s).service = s.service) (i : Nat) (error : Error)
    (frame : Frame) : (s.onReadError i error frame next).service = s.service :=
  service_invoke rfl hnext

@[simp] theorem service_onFailure (s : TcpServer) (i : Nat) (error socketError : Error) :
    (s.onFailure i error socketError).service = s.service :=
  service_onReadError (service_finishReadError s i) i _ _

theorem service_onClientClose (s : TcpServer) (i : Nat) :
    (s.onClientClose i).service =
      { s.service with connections := s.clientConnections.erase i } :=
  service_invoke rfl rfl

@[simp] theorem service_resume (s : TcpServer) (frame : Frame) :
    (s.resume frame).service = s.service := by
  cases frame with
  | last => rfl
  | withoutName i => exact service_reportReset s i
  | accepted i readStart => exact service_finishAccept s i readStart
  | received i size => exact service_advance s i size
  | readFailed i => exact service_finishReadError s i

theorem service_leave (hstep : s.step .leave = some t) : t.service = s.service := by
  rw [step] at hstep
  split at hstep
  · cases hstep
  · cases hstep
    exact service_resume _ _

/-- The completions of the clients. Clients come while the server listens only. -/
theorem service_handleCompletion {completion : Completion} (hscheduled : completion ≠ .scheduled)
    (hclosed : completion ≠ .closed) (hstep : s.handleCompletion completion = some t) :
    ∃ connections, t.service = { s.service with connections := connections } ∧
      (s.handle = some .listening ∨ connections ⊆ s.clientConnections) := by
  cases completion with
  | scheduled => exact absurd rfl hscheduled
  | closed => exact absurd rfl hclosed
  | connection uv =>
      obtain ⟨hlistening, rfl⟩ := by simpa [handleCompletion] using hstep
      obtain ⟨connections, hservice⟩ := service_onNewConnection s uv
      exact ⟨connections, hservice, .inl hlistening⟩
  | data i size =>
      obtain ⟨_, rfl⟩ := by simpa [handleCompletion] using hstep
      exact ⟨_, service_onData s i size, .inr (Finset.Subset.refl _)⟩
  | failure i error socketError =>
      obtain ⟨_, rfl⟩ := by simpa [handleCompletion] using hstep
      exact ⟨_, service_onFailure _ i error socketError, .inr (Finset.Subset.refl _)⟩
  | shutdown i =>
      obtain ⟨_, rfl⟩ := by simpa [handleCompletion] using hstep
      exact ⟨_, rfl, .inr (Finset.Subset.refl _)⟩
  | clientClosed i =>
      obtain ⟨_, rfl⟩ := by simpa [handleCompletion] using hstep
      exact ⟨_, service_onClientClose _ i, .inr (Finset.erase_subset i _)⟩

/-! ## The end of the service -/

section

variable (s : TcpServer)

theorem service_listen (args : ListenArgs) (uv : UvListen) :
    (s.listen args uv).1.service = s.service ∨
      s.handle = none ∧ ∃ listener isOpen, (s.listen args uv).1.service =
        { s.service with handle := some listener, isOpen } := by
  unfold listen
  cases hhandle : s.handle with
  | none =>
      repeat' split
      · exact .inl rfl
      · exact .inl rfl
      all_goals exact .inr ⟨rfl, _, _, rfl⟩
  | some listener =>
      simp only [Option.isSome_some, ↓reduceIte]
      split
      · exact .inl rfl
      · exact .inl rfl

theorem service_notConnected :
    { s.scheduleNotConnected with isOpen := false }.service =
      { s.service with
        isOpen := false
        jobs := s.service.jobs ++ s.endServerCallback.toList.map fun _ => .notConnected } := by
  unfold scheduleNotConnected
  cases hcallback : s.endServerCallback with
  | none => simp [service]
  | some callback => simp [service, schedule, Job.isEnding]

theorem pass_none : s.pass none = s := by simp [pass]

theorem service_endService (f : TcpConnectedClient → TcpConnectedClient) (callback : Option Nat) :
    ((s.pass callback).endService f callback).service = s.service.request callback := by
  unfold endService closeImpl Service.request pass
  cases hhandle : s.handle with
  | none =>
      simp only [service, hhandle, Option.any_none]
      exact service_notConnected _
  | some listener =>
      simp only [service, hhandle, Option.any_some]
      cases hclosing : listener.isClosing with
      | false => rfl
      | true => exact service_notConnected _

theorem service_scheduleRemoval :
    s.scheduleRemoval.service =
      if s.removalScheduled = false ∧ s.handle.isSome = true then s.service.request none
      else s.service := by
  unfold scheduleRemoval
  split
  · have hclose := service_endService { s with removalScheduled := true }
      TcpConnectedClient.close none
    rwa [pass_none] at hclose
  · rfl

theorem service_onClose : s.onClose.service = s.service.close := by
  unfold onClose Service.close
  by_cases hclients : s.clientConnections = ∅
  · simp only [service, hclients, ne_eq, not_true_eq_false, ↓reduceIte]
    cases hcallback : s.endServerCallback with
    | some callback => simp [schedule, hclients, Job.isEnding]
    | none =>
        cases hremoval : s.removalScheduled with
        | false => simp [hclients, hcallback]
        | true => simp [scheduleRemoval, hremoval, hclients, hcallback]
  · simp [service, hclients, schedule, Job.isEnding]

theorem service_logEnd (callback : Nat) (error : Error) :
    (s.logEnd callback error).service = s.service.logEnd callback error := by
  simp [service, logEnd, log, Service.logEnd, Call.endCallback]

theorem service_runJob (job : Job) : (s.runJob job).service = s.service.run job := by
  cases job with
  | notConnected =>
      unfold runJob Service.run
      cases hcallback : s.endServerCallback with
      | none => simp [service, hcallback]
      | some callback =>
          rw [show s.service.endServerCallback = some callback from hcallback]
          exact service_logEnd s callback _
  | onClose => exact service_onClose s
  | ended callback => exact service_logEnd s callback _
  | readFailed i error => exact service_onReadError rfl i error _

end

theorem service_scheduled (hstep : s.handleCompletion .scheduled = some t) :
    ∃ job rest, s.scheduled = job :: rest ∧
      t.service = { s.service with jobs := rest.filter Job.isEnding }.run job := by
  rw [handleCompletion] at hstep
  split at hstep
  · cases hstep
  · rename_i job rest hscheduled
    cases hstep
    exact ⟨job, rest, hscheduled, service_runJob _ job⟩

end TarmIo.Net.Tcp.TcpServer
