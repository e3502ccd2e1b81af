import TarmIo.Foundation.CallbackSlot
import TarmIo.Net.Tcp.ServerSteps

/-!
# The end callbacks of a `TcpServer`

`close`, `shutdown` and `schedule_removal` share `m_end_server_callback`. The request that closes
the listening handle leaves its callback there for `on_close`, and a request that finds no open
handle schedules a callback that reports `NOT_CONNECTED` to what the member holds by then. This
is a `CallbackSlot`: the server goes through its steps (`step_slot`).
-/

namespace TarmIo.Net.Tcp.TcpServer

open Foundation

variable {s t : TcpServer}

/-! ## The server as a slot -/

def stageOf : Option Listener → Stage
  | some .idle | some .listening => .serving
  | some .closing | some .closed => .ending
  | none => .finished

namespace Service

def slot (v : Service) : CallbackSlot Nat where
  slot := v.endServerCallback
  stage := stageOf v.handle
  readers := v.jobs.count .notConnected
  taken := v.jobs.filterMap Job.endCallback
  passed := v.passed
  called := v.endings.filterMap Call.endCallback
  nullCalls := v.nullEndCalls

/-- `on_close` is scheduled once, from its first call to its last. -/
def Wired (v : Service) : Prop :=
  v.jobs.count .onClose = if v.handle = some .closed then 1 else 0

variable {v : Service} {jobs : List Job}

theorem slot_request (v : Service) (callback : Option Nat) :
    (v.request callback).slot = v.slot.put callback := by
  unfold request
  rcases hhandle : v.handle with _ | _ | _ | _ | _ <;> cases callback <;>
    simp [slot, CallbackSlot.put, hhandle, stageOf, Listener.isClosing, Job.endCallback]

theorem Wired.request (h : v.Wired) (callback : Option Nat) : (v.request callback).Wired := by
  unfold Wired at h ⊢
  unfold Service.request
  rcases hhandle : v.handle with _ | _ | _ | _ | _ <;> cases callback <;>
    simp_all [Listener.isClosing]

theorem slot_close (v : Service) :
    v.close.slot = if v.connections = ∅ then v.slot.take else v.slot := by
  unfold close
  by_cases hempty : v.connections = ∅
  · cases hcallback : v.endServerCallback <;>
      simp [slot, hempty, CallbackSlot.take, stageOf, hcallback, Job.endCallback]
  · simp [slot, hempty, Job.endCallback]

theorem wired_close (hhandle : v.handle = some .closed) (hnone : v.jobs.count .onClose = 0) :
    v.close.Wired := by
  unfold close Wired
  by_cases hempty : v.connections = ∅
  · cases v.endServerCallback <;> simp [hempty, hnone]
  · simp [hempty, hhandle, hnone]

/-- The other scheduled callbacks leave the handle alone. -/
theorem Wired.run (h : v.Wired) {job : Job} (hjobs : v.jobs = job :: jobs) (hjob : job ≠ .onClose) :
    ({ v with jobs := jobs }.run job).Wired := by
  have hcount : jobs.count .onClose = if v.handle = some .closed then 1 else 0 := by
    rw [Wired, hjobs, List.count_cons_of_ne hjob] at h
    exact h
  cases job with
  | onClose => exact absurd rfl hjob
  | notConnected =>
      rw [Service.run]
      split
      · exact hcount
      · exact hcount
  | ended callback | readFailed i error => exact hcount

theorem Wired.of_onClose (h : v.Wired) (hjobs : v.jobs = .onClose :: jobs) :
    v.handle = some .closed ∧ jobs.count .onClose = 0 := by
  rw [Wired, hjobs, List.count_cons_self] at h
  split at h
  · exact ⟨by assumption, Nat.succ.inj h⟩
  · cases h

/-- The scheduled callback reads the slot. -/
theorem slot_run_notConnected (hjobs : v.jobs = .notConnected :: jobs) :
    ({ v with jobs := jobs }.run .notConnected).slot = v.slot.read := by
  unfold run CallbackSlot.read
  cases hcallback : v.endServerCallback with
  | none => simp [slot, hjobs, hcallback, List.filterMap_cons, Job.endCallback]
  | some callback =>
      simp [slot, logEnd, hjobs, hcallback, List.filterMap_cons, Job.endCallback,
        Call.endCallback]

theorem slot_run_ended {callback : Nat} (hjobs : v.jobs = .ended callback :: jobs) :
    ({ v with jobs := jobs }.run (.ended callback)).slot = v.slot.deliver callback := by
  simp [slot, run, logEnd, CallbackSlot.deliver, hjobs, Job.endCallback, Call.endCallback]

end Service

def act (s : TcpServer) : Event → CallbackSlot.Act Nat
  | .call (.close callback) | .call (.shutdown callback) => .put callback
  | .call .scheduleRemoval =>
      if s.removalScheduled = false ∧ s.handle.isSome = true then .put none else .stay
  | .loop .closed => if s.clientConnections = ∅ then .take else .stay
  | .loop .scheduled =>
      match s.scheduled with
      | .notConnected :: _ => .read
      | .ended callback :: _ => .deliver callback
      | .onClose :: _ => if s.clientConnections = ∅ then .take else .stay
      | .readFailed .. :: _ | [] => .stay
  | .call _ | .leave | .loop _ => .stay

/-- The server does not listen again, and the callbacks of the requests are distinct. -/
def Distinct (s : TcpServer) : Event → Prop
  | .call (.listen ..) => False
  | .call (.close callback) | .call (.shutdown callback) => ∀ c ∈ callback, c ∉ s.passed
  | .call _ | .leave | .loop _ => True

structure Follows (s : TcpServer) (e : Event) (t : TcpServer) : Prop where
  wired : t.service.Wired
  enabled : s.service.slot.Enabled (s.act e)
  slot : t.service.slot = s.service.slot.apply (s.act e)

variable {e : Event}

theorem follows_of_service (h : s.service.Wired) (hact : s.act e = .stay) {connections : Finset Nat}
    (hsame : t.service = { s.service with connections := connections }) :
    s.Follows e t where
  wired := by
    rw [hsame]
    exact h
  enabled := by
    rw [hact]
    trivial
  slot := by
    rw [hact, hsame]
    rfl

theorem follows_request (h : s.service.Wired) {callback : Option Nat}
    (hact : s.act e = .put callback) (hnew : ∀ c ∈ callback, c ∉ s.passed)
    (hservice : t.service = s.service.request callback) : s.Follows e t where
  wired := by
    rw [hservice]
    exact h.request callback
  enabled := by
    rw [hact]
    exact hnew
  slot := by
    rw [hact, hservice]
    exact s.service.slot_request callback

theorem follows_apply (h : s.service.Wired) {user : UserCall}
    (hdistinct : s.Distinct (.call user)) :
    s.Follows (.call user) (s.apply user) := by
  cases user with
  | listen args uv => exact hdistinct.elim
  | close callback => exact follows_request h rfl hdistinct (service_endService s _ callback)
  | shutdown callback => exact follows_request h rfl hdistinct (service_endService s _ callback)
  | scheduleRemoval =>
      have hservice := service_scheduleRemoval s
      by_cases hcloses : s.removalScheduled = false ∧ s.handle.isSome = true
      · rw [if_pos hcloses] at hservice
        exact follows_request h (if_pos hcloses) nofun hservice
      · rw [if_neg hcloses] at hservice
        exact follows_of_service h (if_neg hcloses) hservice
  | closeClient i => exact follows_of_service h rfl (service_onClient s i _)
  | shutdownClient i => exact follows_of_service h rfl (service_onClient s i _)
  | resetClient i accepted => exact follows_of_service h rfl (service_onClient s i _)

/-- `on_close`, called by libuv or from the loop. -/
theorem follows_onClose {v : Service}
    (hact : s.act e = if s.clientConnections = ∅ then .take else .stay)
    (hhandle : v.handle = some .closed) (hnone : v.jobs.count .onClose = 0)
    (hslot : v.slot = s.service.slot) (hconnections : v.connections = s.clientConnections)
    (hservice : t.service = v.close) : s.Follows e t where
  wired := by
    rw [hservice]
    exact Service.wired_close hhandle hnone
  enabled := by
    rw [hact]
    split
    · rw [← hslot]
      simp [CallbackSlot.Enabled, Service.slot, hhandle, stageOf]
    · trivial
  slot := by
    rw [hservice, Service.slot_close, hslot, hconnections, hact]
    split <;> rfl

theorem jobs_eq {job : Job} {rest : List Job} (hscheduled : s.scheduled = job :: rest)
    (hending : job.isEnding = true) : s.service.jobs = job :: rest.filter Job.isEnding := by
  simp [service, hscheduled, hending]

theorem follows_scheduled (h : s.service.Wired)
    (hstep : s.handleCompletion .scheduled = some t) : s.Follows (.loop .scheduled) t := by
  obtain ⟨job, rest, hscheduled, hservice⟩ := service_scheduled hstep
  cases job with
  | readFailed i error =>
      have hsame : t.service = s.service := by
        rw [hservice]
        simp [service, Service.run, hscheduled, Job.isEnding]
      exact follows_of_service h (by simp [act, hscheduled]) hsame
  | notConnected =>
      have hjobs := jobs_eq hscheduled rfl
      have hact : s.act (.loop .scheduled) = .read := by simp [act, hscheduled]
      refine ⟨hservice ▸ h.run hjobs (by simp), ?_, ?_⟩
      · rw [hact]
        simp [CallbackSlot.Enabled, Service.slot, hjobs]
      · rw [hact, hservice]
        exact Service.slot_run_notConnected hjobs
  | ended callback =>
      have hjobs := jobs_eq hscheduled rfl
      have hact : s.act (.loop .scheduled) = .deliver callback := by simp [act, hscheduled]
      refine ⟨hservice ▸ h.run hjobs (by simp), ?_, ?_⟩
      · rw [hact]
        simp [CallbackSlot.Enabled, Service.slot, hjobs, Job.endCallback]
      · rw [hact, hservice]
        exact Service.slot_run_ended hjobs
  | onClose =>
      have hjobs := jobs_eq hscheduled rfl
      obtain ⟨hhandle, hnone⟩ := h.of_onClose hjobs
      refine follows_onClose (v := { s.service with jobs := rest.filter Job.isEnding })
        (by simp [act, hscheduled]) hhandle hnone ?_ rfl hservice
      simp [Service.slot, hjobs, List.filterMap_cons, Job.endCallback]

theorem step_slot (h : s.service.Wired) (hdistinct : s.Distinct e) (hstep : s.step e = some t) :
    s.Follows e t := by
  cases e with
  | call user =>
      cases hstep
      exact follows_apply h hdistinct
  | leave => exact follows_of_service h rfl (service_leave hstep)
  | loop completion =>
      obtain ⟨_, hstep⟩ := by simpa [step] using hstep
      by_cases hscheduled : completion = .scheduled
      · subst hscheduled
        exact follows_scheduled h hstep
      · by_cases hclosed : completion = .closed
        · subst hclosed
          obtain ⟨hclosing, rfl⟩ := by simpa [handleCompletion] using hstep
          have hnone : s.service.jobs.count .onClose = 0 := by
            simpa [Service.Wired, service, hclosing] using h
          refine follows_onClose (v := { s.service with handle := some .closed }) rfl rfl hnone ?_
            rfl (service_onClose _)
          simp [Service.slot, service, hclosing, stageOf]
        · obtain ⟨connections, hservice, _⟩ := service_handleCompletion hscheduled hclosed hstep
          refine follows_of_service h ?_ hservice
          cases completion with
          | scheduled => exact absurd rfl hscheduled
          | closed => exact absurd rfl hclosed
          | connection | data | failure | shutdown | clientClosed => rfl

/-! ## Orderly requests -/

def endCalls (s : TcpServer) : List Nat := s.calls.filterMap Call.endCallback

/-- `m_end_server_callback` holds the callback of a request, and it was not called yet. -/
def Waiting (s : TcpServer) : Prop :=
  ∃ callback ∈ s.endServerCallback, callback ∈ s.passed ∧ callback ∉ s.endCalls

instance (s : TcpServer) : Decidable s.Waiting :=
  inferInstanceAs (Decidable (∃ callback ∈ s.endServerCallback, _))

/-- What `on_close` should find when the last client is gone: nothing, or a callback that no one
else is about to call. -/
def TakesWaiting (s : TcpServer) : Prop :=
  s.endServerCallback ≠ none → s.Waiting ∧ .notConnected ∉ s.scheduled

instance (s : TcpServer) : Decidable s.TakesWaiting := inferInstanceAs (Decidable (_ → _))

/-- A request does not overwrite a callback that waits, and `on_close` takes only one that waits
for it. -/
def Orderly (s : TcpServer) : Event → Prop
  | .call (.close _) | .call (.shutdown _) => ¬ s.Waiting
  | .call .scheduleRemoval => s.removalScheduled = false ∧ s.handle.isSome = true → ¬ s.Waiting
  | .loop .closed => s.clientConnections = ∅ → s.TakesWaiting
  | .loop .scheduled =>
      s.scheduled.head? = some .onClose → s.clientConnections = ∅ → s.TakesWaiting
  | .call _ | .leave | .loop _ => True

section

variable (s : TcpServer)

theorem called_eq : s.service.slot.called = s.endCalls := by
  simp only [Service.slot, service, endCalls, List.filterMap_filter]
  congr 1
  funext call
  cases call <;> rfl

theorem waits_iff (callback : Nat) :
    s.service.slot.Waits callback ↔
      s.endServerCallback = some callback ∧ callback ∈ s.passed ∧ callback ∉ s.endCalls := by
  rw [CallbackSlot.Waits, called_eq]
  rfl

theorem readers_eq_zero_iff : s.service.slot.readers = 0 ↔ .notConnected ∉ s.scheduled := by
  simp [Service.slot, service, List.count_eq_zero, Job.isEnding]

theorem fair_put_iff (callback : Option Nat) :
    s.service.slot.Fair (.put callback) ↔ ¬ s.Waiting := by
  simp only [CallbackSlot.Fair, Waiting, waits_iff, Option.mem_def, not_exists]

theorem fair_take_iff : s.service.slot.Fair .take ↔ s.TakesWaiting := by
  simp only [CallbackSlot.Fair, TakesWaiting, Waiting, waits_iff, readers_eq_zero_iff,
    Option.mem_def]
  cases hslot : s.endServerCallback with
  | none => simp [Service.slot, service, hslot]
  | some callback => simp [Service.slot, service, hslot]

theorem fair_ite_iff {c : Prop} [Decidable c] (x : CallbackSlot.Act Nat) :
    s.service.slot.Fair (if c then x else .stay) ↔ (c → s.service.slot.Fair x) := by
  split
  · simp [*]
  · simp [*, CallbackSlot.Fair]

/-- The orderly steps are those that are fair to the slot. -/
theorem orderly_iff_fair (e : Event) : s.Orderly e ↔ s.service.slot.Fair (s.act e) := by
  cases e with
  | leave => exact Iff.rfl
  | call user =>
      cases user with
      | close callback | shutdown callback => exact (fair_put_iff s callback).symm
      | scheduleRemoval =>
          rw [act, fair_ite_iff, fair_put_iff]
          rfl
      | listen | closeClient | shutdownClient | resetClient => exact Iff.rfl
  | loop completion =>
      cases completion with
      | closed =>
          rw [act, fair_ite_iff, fair_take_iff]
          rfl
      | scheduled =>
          rcases hscheduled : s.scheduled with _ | ⟨_ | _ | _ | _, rest⟩
          · simp [Orderly, act, hscheduled, CallbackSlot.Fair]
          · simp [Orderly, act, hscheduled, CallbackSlot.Fair]
          · simp [Orderly, act, hscheduled, fair_ite_iff, fair_take_iff]
          · simp [Orderly, act, hscheduled, CallbackSlot.Fair]
          · simp [Orderly, act, hscheduled, CallbackSlot.Fair]
      | connection | data | failure | shutdown | clientClosed => exact Iff.rfl

end

/-! ## Runs -/

/-- A server that listens and was not asked for its end: no callback of the end is scheduled. What
was passed and called counts from here. -/
structure Listening (s : TcpServer) : Prop where
  handle : s.handle = some .listening
  scheduled : ∀ job ∈ s.scheduled, job.isEnding = false
  passed : s.passed = []
  endCalls : s.endCalls = []
  nullEndCalls : s.nullEndCalls = 0

def Settled (s : TcpServer) : Prop :=
  s.handle = none ∧ s.clientConnections = ∅ ∧ s.scheduled = []

instance (s : TcpServer) : Decidable s.Settled := inferInstanceAs (Decidable (_ ∧ _ ∧ _))

def Answered (s : TcpServer) : Prop :=
  (∀ callback ∈ s.passed, s.endCalls.count callback = 1) ∧ s.nullEndCalls = 0

instance (s : TcpServer) : Decidable s.Answered := inferInstanceAs (Decidable (_ ∧ _))

instance (s : TcpServer) (e : Event) : Decidable (s.Distinct e) := by
  rcases e with (_ | _ | _ | _ | _ | _ | _) | _ | _ <;>
    unfold Distinct <;> infer_instance

instance (s : TcpServer) (e : Event) : Decidable (s.Orderly e) := by
  rcases e with (_ | _ | _ | _ | _ | _ | _) | _ | (_ | _ | _ | _ | _ | _ | _) <;>
    unfold Orderly <;> infer_instance

theorem Listening.jobs (h : s.Listening) : s.service.jobs = [] := by
  simpa [service, List.filter_eq_nil_iff] using h.scheduled

theorem Listening.wired (h : s.Listening) : s.service.Wired := by
  rw [Service.Wired, h.jobs, if_neg (by simp [service, h.handle])]
  rfl

theorem Listening.accounted (h : s.Listening) : s.service.slot.Accounted where
  distinct := by simp [Service.slot, service, h.passed]
  once a := by
    have htaken : s.service.slot.taken = [] := by simp [Service.slot, h.jobs]
    rw [called_eq, h.endCalls, htaken]
    simp [CallbackSlot.Waits, Service.slot, service, h.passed]
  held hstage := absurd (by simp [Service.slot, service, h.handle, stageOf]) hstage
  reader a ha := by
    have hpassed := ha.2.1
    simp [Service.slot, service, h.passed] at hpassed
  readers := by simp [Service.slot, h.jobs]
  waiting hpos := by simp [Service.slot, h.jobs] at hpos
  nullCalls := h.nullEndCalls

theorem Settled.slot (h : s.Settled) : s.service.slot.Settled := by
  obtain ⟨hhandle, -, hscheduled⟩ := h
  simp [CallbackSlot.Settled, Service.slot, service, hhandle, hscheduled, stageOf]

theorem answered_iff (s : TcpServer) : s.Answered ↔ s.service.slot.Answered := by
  rw [Answered, CallbackSlot.Answered, called_eq]
  rfl

def OnWay (s : TcpServer) : Prop := s.service.Wired ∧ s.service.slot.Accounted

def OffWay (s : TcpServer) : Prop := s.service.Wired ∧ s.service.slot.Doomed

theorem step_onWay (h : s.OnWay) (horderly : s.Orderly e)
    (hstep : restrict Distinct step s e = some t) : t.OnWay := by
  obtain ⟨hdistinct, hstep⟩ := restrict_eq_some.mp hstep
  have hfollows := step_slot h.1 hdistinct hstep
  refine ⟨hfollows.wired, ?_⟩
  rw [hfollows.slot]
  exact h.2.apply hfollows.enabled ((orderly_iff_fair s e).mp horderly)

theorem step_leaves_way (h : s.OnWay) (hnot : ¬ s.Orderly e)
    (hstep : restrict Distinct step s e = some t) : t.OffWay := by
  obtain ⟨hdistinct, hstep⟩ := restrict_eq_some.mp hstep
  have hfollows := step_slot h.1 hdistinct hstep
  refine ⟨hfollows.wired, ?_⟩
  rw [hfollows.slot]
  exact h.2.doomed hfollows.enabled fun hfair => hnot ((orderly_iff_fair s e).mpr hfair)

theorem step_offWay (h : s.OffWay) (hstep : restrict Distinct step s e = some t) : t.OffWay := by
  obtain ⟨hdistinct, hstep⟩ := restrict_eq_some.mp hstep
  have hfollows := step_slot h.1 hdistinct hstep
  refine ⟨hfollows.wired, ?_⟩
  rw [hfollows.slot]
  exact h.2.apply hfollows.enabled

/-- Once a server that listened is closed, all its requests were answered exactly when they were
orderly. -/
theorem requests_answered_iff (hs : s.Listening) {run : List Event}
    (h : exec (restrict Distinct step) s run = some t) (hsettled : t.Settled) :
    t.Answered ↔ Along (restrict Distinct step) Orderly s run := by
  have hstart : s.OnWay := ⟨hs.wired, hs.accounted⟩
  have hcases := along_or_bad (fun _ _ _ hu => step_onWay hu) (fun _ _ _ hu => step_leaves_way hu)
    (fun u _ _ (hu : u.OffWay) => step_offWay hu) hstart h
  rw [answered_iff]
  rcases hcases with ⟨hall, -, haccounted⟩ | ⟨hnot, -, hdoomed⟩
  · exact iff_of_true (haccounted.answered hsettled.slot) hall
  · exact iff_of_false (hdoomed.not_answered hsettled.slot) hnot

def listeningServer : TcpServer :=
  ((({} : TcpServer).listen {} {}).1.newClient.insertClient 0).finishAccept 0 {}

theorem listening_listeningServer : listeningServer.Listening := ⟨rfl, nofun, rfl, rfl, rfl⟩

def closedTwice : List Event :=
  [.call (.close (some 1)), .call (.close (some 2)), .loop .scheduled, .leave,
    .loop (.clientClosed 0), .leave, .loop .closed, .loop .scheduled, .leave]

def removedInShutdown : List Event :=
  [.call (.shutdown (some 1)), .call .scheduleRemoval, .loop (.shutdown 0),
    .loop (.clientClosed 0), .leave, .loop .closed]

def closedAfterClose : List Event :=
  [.call (.close none), .loop (.clientClosed 0), .leave, .loop .closed, .call (.close (some 1)),
    .call (.close none), .loop .scheduled]

/-- In the first run the first callback is never called and the second one is called twice. In the
second run the callback is never called. In the third run it is not called either, but the null
callback is. -/
theorem end_callbacks_mixed_up :
    listeningServer.Listening ∧
      (exec (restrict Distinct step) listeningServer closedTwice).map
        (fun t => (decide t.Settled, t.passed, t.endCalls, t.nullEndCalls)) =
          some (true, [1, 2], [2, 2], 0) ∧
      (exec (restrict Distinct step) listeningServer removedInShutdown).map
        (fun t => (decide t.Settled, t.passed, t.endCalls, t.nullEndCalls)) =
          some (true, [1], [], 0) ∧
      (exec (restrict Distinct step) listeningServer closedAfterClose).map
        (fun t => (decide t.Settled, t.passed, t.endCalls, t.nullEndCalls)) =
          some (true, [1], [], 1) := by
  refine ⟨listening_listeningServer, ?_⟩
  decide +kernel

/-- The server is closed while its client shuts down, closed again in the callback, and removed in
the callback of that. -/
def closedInCallback : List Event :=
  [.loop (.connection {}), .leave, .call (.shutdownClient 0), .call (.close (some 1)),
    .loop .closed, .loop (.shutdown 0), .loop .scheduled, .loop (.clientClosed 1), .leave,
    .loop (.clientClosed 0), .leave, .loop .scheduled, .loop .scheduled, .call (.close (some 2)),
    .leave, .loop .scheduled, .call .scheduleRemoval, .leave]

theorem requests_answered_iff_closedInCallback :
    ∃ t, exec (restrict Distinct step) listeningServer closedInCallback = some t ∧ t.Settled ∧
      t.passed = [1, 2] ∧ t.Answered := by
  have hend : ∃ t ∈ exec (restrict Distinct step) listeningServer closedInCallback,
      t.Settled ∧ t.passed = [1, 2] := by
    decide +kernel
  obtain ⟨t, hrun, hsettled, hpassed⟩ := hend
  have horderly : Along (restrict Distinct step) Orderly listeningServer closedInCallback := by
    decide +kernel
  exact ⟨t, hrun, hsettled, hpassed,
    (requests_answered_iff listening_listeningServer hrun hsettled).mpr horderly⟩

end TarmIo.Net.Tcp.TcpServer
