import TarmIo.Net.Tcp.ServerSteps

/-!
# The clients of a `TcpServer`

A client that was accepted is open, or waits for one shutdown request, or for one call of its
close callback, or that call is over. So `uv_close` is called once for it, and the close callback
takes it once out of `m_client_connections`. The end callback reports success only after the
handle was closed with no client left, and no client comes without a new `listen`.
-/

namespace TarmIo.Net.Tcp

open Foundation

namespace TcpConnectedClient

def Staged (k : TcpConnectedClient) : Prop :=
  k.isOpen.toNat + k.shutdowns + k.closes + k.closed.toNat ≤ k.accepted.toNat

/-- What the functions of a client do that are not its close callback. -/
structure Tame (k l : TcpConnectedClient) : Prop where
  staged : k.Staged → l.Staged
  accepted : l.accepted = k.accepted
  closed : l.closed = k.closed

variable {k : TcpConnectedClient}

section

variable (k : TcpConnectedClient)

theorem Tame.refl : k.Tame k := ⟨id, rfl, rfl⟩

theorem tame_shutdown : k.Tame k.shutdown := by
  unfold TcpConnectedClient.shutdown
  split
  · rename_i hopen
    refine ⟨fun h => ?_, rfl, rfl⟩
    simp only [Staged, hopen, Bool.toNat_true, Bool.toNat_false] at h ⊢
    omega
  · exact .refl k

theorem tame_close : k.Tame k.close := by
  unfold TcpConnectedClient.close
  split
  · rename_i hopen
    refine ⟨fun h => ?_, rfl, rfl⟩
    simp only [Staged, uvClose, hopen, Bool.toNat_true, Bool.toNat_false] at h ⊢
    omega
  · exact .refl k

/-- A stream that `uv_tcp_close_reset` refuses is in no stage any more. -/
theorem tame_closeWithReset (accepted : Bool) : k.Tame (k.closeWithReset accepted) := by
  unfold TcpConnectedClient.closeWithReset
  split
  · rename_i hopen
    refine ⟨fun h => ?_, ?_, ?_⟩
    · simp only [Staged, hopen, Bool.toNat_true] at h
      split <;> simp only [Staged, uvClose, Bool.toNat_false] <;> omega
    · split <;> rfl
    · split <;> rfl
  · exact .refl k

end

theorem tame_onShutdown (hpending : 0 < k.shutdowns) : k.Tame k.onShutdown := by
  refine ⟨fun h => ?_, rfl, rfl⟩
  simp only [Staged, TcpConnectedClient.onShutdown, uvClose] at h ⊢
  omega

/-- The close callback of a client runs when none has run before. -/
theorem Staged.closed_eq_false (h : k.Staged) (hpending : 0 < k.closes) :
    k.closed = false ∧ k.accepted = true := by
  unfold Staged at h
  cases hclosed : k.closed <;> cases haccepted : k.accepted <;>
    simp [hclosed, haccepted] at h ⊢ <;> omega

theorem Staged.close_callback (h : k.Staged) (hpending : 0 < k.closes) :
    { k with closes := k.closes - 1, closed := true }.Staged := by
  have hclosed := (h.closed_eq_false hpending).1
  simp only [Staged, hclosed, Bool.toNat_true, Bool.toNat_false] at h ⊢
  omega

end TcpConnectedClient

namespace TcpServer

open TcpConnectedClient (Staged Tame)

variable {s t : TcpServer} {i : Nat}

/-- The clients, the set of them and the removals from it, for `created` clients. -/
structure Tally (clients : Nat → TcpConnectedClient) (connections : Finset Nat)
    (removed : List Nat) (created : Nat) : Prop where
  staged : ∀ i, (clients i).Staged
  fresh : ∀ i, created ≤ i → (clients i).accepted = false
  members : ∀ i, i ∈ connections ↔ (clients i).accepted = true ∧ (clients i).closed = false
  removed : ∀ i, removed.count i = (clients i).closed.toNat

def Tallied (s : TcpServer) : Prop := Tally s.clients s.clientConnections s.removed s.created

section

variable (h : s.Tallied)
include h

theorem Tallied.of_tame {clients : Nat → TcpConnectedClient}
    (htame : ∀ i, (s.clients i).Tame (clients i)) : { s with clients := clients }.Tallied where
  staged i := (htame i).staged (h.staged i)
  fresh i hi := (htame i).accepted.trans (h.fresh i hi)
  members i := by
    rw [(htame i).accepted, (htame i).closed]
    exact h.members i
  removed i := by
    rw [(htame i).closed]
    exact h.removed i

theorem Tallied.onClient {f : TcpConnectedClient → TcpConnectedClient}
    (htame : (s.clients i).Tame (f (s.clients i))) : (s.onClient i f).Tallied := by
  refine h.of_tame fun j => ?_
  by_cases hj : j = i
  · subst hj
    simpa using htame
  · rw [Function.update_of_ne hj]
    exact .refl _

theorem Tallied.invoke {next : TcpServer → TcpServer} (hnext : (next s).Tallied) (callback : Bool)
    (call : Call) (frame : Frame) : (s.invoke callback call frame next).Tallied := by
  unfold TcpServer.invoke
  split
  · exact h
  · exact hnext

theorem Tallied.startRead (i : Nat) (readStart : Error) : (s.startRead i readStart).Tallied := by
  unfold TcpServer.startRead
  split
  · have hclient : (s.onClient i fun k => { k with receiveCallback := false }).Tallied :=
      h.onClient ⟨id, rfl, rfl⟩
    exact hclient
  · exact h.onClient ⟨id, rfl, rfl⟩

theorem Tallied.finishAccept (i : Nat) (readStart : Error) :
    (s.finishAccept i readStart).Tallied := by
  unfold TcpServer.finishAccept
  split
  · exact h.startRead i readStart
  · exact h

end

/-- One client changes, and with it its membership and its removals. -/
theorem Tally.update {clients : Nat → TcpConnectedClient} {connections connections' : Finset Nat}
    {removed removed' : List Nat} {created created' : Nat}
    (h : Tally clients connections removed created) {k : TcpConnectedClient}
    (hstaged : k.Staged) (hfresh : created' ≤ i → k.accepted = false)
    (hcreated : created ≤ created')
    (hmember : i ∈ connections' ↔ k.accepted = true ∧ k.closed = false)
    (hremoved : removed'.count i = k.closed.toNat)
    (hothers : ∀ j, j ≠ i → (j ∈ connections' ↔ j ∈ connections) ∧
      removed'.count j = removed.count j) :
    Tally (Function.update clients i k) connections' removed' created' := by
  have hself : Function.update clients i k i = k := Function.update_self ..
  have hother (j : Nat) (hj : j ≠ i) : Function.update clients i k j = clients j :=
    Function.update_of_ne hj ..
  refine
    { staged := fun j => ?_
      fresh := fun j hle => ?_
      members := fun j => ?_
      removed := fun j => ?_ }
  all_goals rcases Decidable.eq_or_ne j i with rfl | hj
  · rwa [hself]
  · rw [hother j hj]
    exact h.staged j
  · rw [hself]
    exact hfresh hle
  · rw [hother j hj]
    exact h.fresh j (Nat.le_trans hcreated hle)
  · rwa [hself]
  · rw [hother j hj]
    exact (hothers j hj).1.trans (h.members j)
  · rwa [hself]
  · rw [hother j hj]
    exact (hothers j hj).2.trans (h.removed j)

section

variable (h : s.Tallied)
include h

/-- A client that was not made yet is in no stage. -/
theorem Tallied.closed_created : (s.clients s.created).closed = false := by
  have hstaged := h.staged s.created
  rw [Staged, h.fresh s.created (Nat.le_refl _)] at hstaged
  cases hclosed : (s.clients s.created).closed with
  | false => rfl
  | true => simp [hclosed] at hstaged

theorem Tallied.newClient : s.newClient.Tallied := by
  have hmember := h.members s.created
  have hremoved := h.removed s.created
  rw [h.fresh s.created (Nat.le_refl _)] at hmember
  rw [h.closed_created] at hremoved
  refine Tally.update h ?_ (fun _ => rfl) (Nat.le_succ _) ?_ hremoved fun j _ => ⟨Iff.rfl, rfl⟩
  · simp [Staged]
  · simpa [TcpServer.newClient] using hmember

theorem Tallied.insertClient (hi : i < s.created) (hclient : s.clients i = {}) :
    (s.insertClient i).Tallied := by
  have hremoved := h.removed i
  rw [hclient] at hremoved
  refine Tally.update h ?_ (fun hle => absurd hi (Nat.not_lt.mpr hle)) (Nat.le_refl _) ?_ ?_ ?_
  · simp [hclient, Staged, TcpConnectedClient.setEndpoint]
  · simp [hclient, TcpServer.insertClient, TcpConnectedClient.setEndpoint]
  · rw [hclient]
    exact hremoved
  · exact fun j hj => ⟨by simp [TcpServer.insertClient, hj], rfl⟩

theorem Tallied.onNewConnection (uv : UvAccept) : (s.onNewConnection uv).Tallied := by
  have hnew := h.newClient
  have hinsert : (s.newClient.insertClient s.created).Tallied :=
    hnew.insertClient (Nat.lt_succ_self _) (by simp [TcpServer.newClient])
  unfold TcpServer.onNewConnection TcpServer.invokeUnchecked
  repeat' split
  · exact hnew.invoke hnew _ _ _
  · exact hnew.invoke hnew _ _ _
  · exact hnew.invoke hnew _ _ _
  · exact hnew.invoke hnew _ _ _
  · exact hnew.invoke hnew _ _ _
  · exact hinsert.invoke (hinsert.finishAccept _ _) _ _ _

theorem Tallied.onData (i : Nat) (size : UInt64) : (s.onData i size).Tallied := by
  have hadvance : (s.advance i size).Tallied := h.onClient ⟨id, rfl, rfl⟩
  unfold TcpServer.onData
  split
  · exact hadvance
  · exact h.invoke hadvance _ _ _

theorem Tallied.finishReadError (i : Nat) : (s.finishReadError i).Tallied := by
  have htame := TcpConnectedClient.tame_close { s.clients i with closeCallback := false }
  exact h.onClient ⟨htame.staged, htame.accepted, htame.closed⟩

theorem Tallied.onFailure (i : Nat) (error socketError : Error) :
    (s.onFailure i error socketError).Tallied :=
  h.invoke (h.finishReadError i) _ _ _

theorem Tallied.clientClosed (hpending : 0 < (s.clients i).closes) :
    ((s.onClient i fun k =>
      { k with closes := k.closes - 1, closed := true }).removeClientConnection i).Tallied := by
  obtain ⟨hclosed, haccepted⟩ := (h.staged i).closed_eq_false hpending
  have hremoved := h.removed i
  rw [hclosed] at hremoved
  refine Tally.update h ((h.staged i).close_callback hpending) (fun hle => ?_) (Nat.le_refl _)
    ?_ ?_ ?_
  · exact absurd (h.fresh i hle) (by simp [haccepted])
  · simp [removeClientConnection]
  · simpa [removeClientConnection, TcpServer.onClient] using hremoved
  · intro j hj
    have hij : i ≠ j := fun hij => hj hij.symm
    exact ⟨by simp [removeClientConnection, TcpServer.onClient, hj],
      by simp [removeClientConnection, TcpServer.onClient, hij]⟩

end

theorem Tallied.onClientClose (h : (s.removeClientConnection i).Tallied) :
    (s.onClientClose i).Tallied :=
  h.invoke h _ _ _

/-! ## The calls and the end of the service -/

section

variable (h : s.Tallied)
include h

theorem Tallied.closeImpl : s.closeImpl.Tallied := by
  unfold TcpServer.closeImpl TcpServer.scheduleNotConnected
  repeat' split
  all_goals exact h

theorem Tallied.endService {f : TcpConnectedClient → TcpConnectedClient}
    (htame : ∀ k : TcpConnectedClient, k.Tame (f k)) (callback : Option Nat) :
    (s.endService f callback).Tallied := by
  refine Tallied.closeImpl ?_
  refine Tallied.of_tame (s := { s with endServerCallback := callback }) h fun i => ?_
  dsimp only
  split
  · exact htame _
  · exact .refl _

theorem Tallied.close (callback : Option Nat) : (s.close callback).Tallied :=
  h.endService TcpConnectedClient.tame_close callback

theorem Tallied.scheduleRemoval : s.scheduleRemoval.Tallied := by
  unfold TcpServer.scheduleRemoval
  split
  · exact Tallied.close (s := { s with removalScheduled := true }) h none
  · exact h

theorem Tallied.listen (args : ListenArgs) (uv : UvListen) : (s.listen args uv).1.Tallied := by
  unfold TcpServer.listen
  repeat' split
  all_goals exact h

theorem Tallied.apply (user : UserCall) : (s.apply user).Tallied := by
  cases user with
  | listen args uv => exact h.listen args uv
  | close callback => exact Tallied.close (s := s.pass callback) h callback
  | shutdown callback =>
      exact Tallied.endService (s := s.pass callback) h TcpConnectedClient.tame_shutdown callback
  | scheduleRemoval => exact h.scheduleRemoval
  | closeClient i => exact h.onClient (TcpConnectedClient.tame_close _)
  | shutdownClient i => exact h.onClient (TcpConnectedClient.tame_shutdown _)
  | resetClient i accepted => exact h.onClient (TcpConnectedClient.tame_closeWithReset _ accepted)

theorem Tallied.onClose : s.onClose.Tallied := by
  unfold TcpServer.onClose
  repeat' split
  · exact h
  · exact h
  · exact h.scheduleRemoval
  · exact h

theorem Tallied.runJob (job : Job) : (s.runJob job).Tallied := by
  cases job with
  | notConnected =>
      rw [TcpServer.runJob]
      split
      · exact h
      · exact h
  | onClose => exact h.onClose
  | ended callback => exact h
  | readFailed i error => exact h.invoke h _ _ _

theorem Tallied.resume (frame : Frame) : (s.resume frame).Tallied := by
  cases frame with
  | last => exact h
  | withoutName i => exact h.invoke h _ _ _
  | accepted i readStart => exact h.finishAccept i readStart
  | received i size => exact h.onClient ⟨id, rfl, rfl⟩
  | readFailed i => exact h.finishReadError i

theorem Tallied.handleCompletion {completion : Completion}
    (hstep : s.handleCompletion completion = some t) : t.Tallied := by
  cases completion with
  | scheduled =>
      rw [TcpServer.handleCompletion] at hstep
      split at hstep
      · cases hstep
      · rename_i job rest _
        cases hstep
        exact Tallied.runJob (s := { s with scheduled := rest }) h job
  | closed =>
      obtain ⟨_, rfl⟩ := by simpa [TcpServer.handleCompletion] using hstep
      exact Tallied.onClose (s := { s with handle := some .closed }) h
  | connection uv =>
      obtain ⟨_, rfl⟩ := by simpa [TcpServer.handleCompletion] using hstep
      exact h.onNewConnection uv
  | data i size =>
      obtain ⟨_, rfl⟩ := by simpa [TcpServer.handleCompletion] using hstep
      exact h.onData i size
  | failure i error socketError =>
      obtain ⟨_, rfl⟩ := by simpa [TcpServer.handleCompletion] using hstep
      have hstopped : (s.onClient i fun k => { k with reading := false }).Tallied :=
        h.onClient ⟨id, rfl, rfl⟩
      exact hstopped.onFailure i error socketError
  | shutdown i =>
      obtain ⟨hpending, rfl⟩ := by simpa [TcpServer.handleCompletion] using hstep
      exact h.onClient (TcpConnectedClient.tame_onShutdown hpending)
  | clientClosed i =>
      obtain ⟨⟨hpending, _⟩, rfl⟩ := by simpa [TcpServer.handleCompletion] using hstep
      exact Tallied.onClientClose (h.clientClosed hpending)

theorem step_tallied {e : Event} (hstep : s.step e = some t) : t.Tallied := by
  cases e with
  | call user =>
      cases hstep
      exact h.apply user
  | leave =>
      rw [step] at hstep
      split at hstep
      · cases hstep
      · rename_i frame _
        cases hstep
        exact Tallied.resume (s := { s with running := none }) h frame
  | loop completion =>
      obtain ⟨_, hstep⟩ := by simpa [step] using hstep
      exact h.handleCompletion hstep

end

/-! ## The end callback -/

/-- An end callback that is to report success finds no client, and none will come. -/
structure Service.Tidy (v : Service) : Prop where
  atEnd : ∀ callback, .ended callback ∈ v.jobs → v.handle ≠ some .listening ∧ v.connections = ∅
  ends : ∀ callback error connections, .ended callback error connections ∈ v.endings →
    error.isError = false → connections = ∅

namespace Service

variable {v : Service}

section

variable (h : v.Tidy)
include h

theorem Tidy.fewer {jobs : List Job} (hsub : jobs ⊆ v.jobs) : { v with jobs := jobs }.Tidy :=
  { h with atEnd := fun callback hmem => h.atEnd callback (hsub hmem) }

theorem Tidy.withConnections {connections : Finset Nat}
    (hcome : v.handle = some .listening ∨ connections ⊆ v.connections) :
    { v with connections := connections }.Tidy where
  atEnd callback hmem := by
    obtain ⟨hhandle, hempty⟩ := h.atEnd callback hmem
    refine ⟨hhandle, ?_⟩
    rcases hcome with hlistening | hsub
    · exact absurd hlistening hhandle
    · rw [hempty] at hsub
      exact Finset.subset_empty.mp hsub
  ends := h.ends

theorem Tidy.listen (hnone : ∀ callback, Job.ended callback ∉ v.jobs) (listener : Listener)
    (isOpen : Bool) : { v with handle := some listener, isOpen }.Tidy where
  atEnd callback hmem := absurd hmem (hnone callback)
  ends := h.ends

theorem Tidy.closed : { v with handle := some .closed }.Tidy :=
  { h with atEnd := fun callback hmem => ⟨nofun, (h.atEnd callback hmem).2⟩ }

theorem Tidy.request (callback : Option Nat) : (v.request callback).Tidy := by
  unfold Service.request
  split
  · exact ⟨fun c hmem => ⟨nofun, (h.atEnd c hmem).2⟩, h.ends⟩
  · refine ⟨fun c hmem => ?_, h.ends⟩
    rcases List.mem_append.mp hmem with hmem | hmem
    · exact h.atEnd c hmem
    · simp at hmem

/-- The callback is scheduled when no client is left. -/
theorem Tidy.close : v.close.Tidy := by
  unfold Service.close
  split
  · refine ⟨fun c hmem => h.atEnd c ?_, h.ends⟩
    simpa using hmem
  · rename_i hempty
    exact ⟨fun c _ => ⟨nofun, not_not.mp hempty⟩, h.ends⟩

theorem Tidy.logEnd (callback : Nat) {error : Error}
    (herror : error.isError = false → v.connections = ∅) : (v.logEnd callback error).Tidy where
  atEnd := h.atEnd
  ends c e connections hmem hok := by
    rcases List.mem_append.mp hmem with hmem | hmem
    · exact h.ends c e connections hmem hok
    · cases List.mem_singleton.mp hmem
      exact herror hok

theorem Tidy.run {job : Job} (hended : ∀ callback, job = .ended callback → v.connections = ∅) :
    (v.run job).Tidy := by
  cases job with
  | notConnected =>
      rw [Service.run]
      split
      · exact ⟨h.atEnd, h.ends⟩
      · refine h.logEnd _ fun hok => ?_
        cases hok
  | onClose => exact h.close
  | ended callback => exact h.logEnd callback fun _ => hended callback rfl
  | readFailed i error => exact h

end

end Service

theorem tidy_scheduled (h : s.service.Tidy) (hstep : s.handleCompletion .scheduled = some t) :
    t.service.Tidy := by
  obtain ⟨job, rest, hscheduled, hservice⟩ := service_scheduled hstep
  have hjobs : s.service.jobs = (job :: rest).filter Job.isEnding := by
    rw [← hscheduled]
    rfl
  have hsub : rest.filter Job.isEnding ⊆ s.service.jobs := by
    rw [hjobs]
    exact ((List.sublist_cons_self job rest).filter _).subset
  rw [hservice]
  refine (h.fewer hsub).run fun callback hjob => (h.atEnd callback ?_).2
  rw [hjobs, hjob]
  simp [Job.isEnding]

/-- No new `listen` while an end callback is on its way to report success. -/
def ListensInTurn (s : TcpServer) : Event → Prop
  | .call (.listen ..) => ∀ job ∈ s.scheduled, job.endCallback = none
  | .call _ | .leave | .loop _ => True

instance (s : TcpServer) (e : Event) : Decidable (s.ListensInTurn e) := by
  unfold ListensInTurn
  split <;> infer_instance

theorem tidy_apply (h : s.service.Tidy) {user : UserCall} (hturn : s.ListensInTurn (.call user)) :
    (s.apply user).service.Tidy := by
  cases user with
  | listen args uv =>
      rw [TcpServer.apply]
      rcases service_listen s args uv with hsame | ⟨_, listener, isOpen, hnew⟩
      · rw [hsame]
        exact h
      · rw [hnew]
        refine h.listen (fun callback hmem => ?_) listener isOpen
        have hjob := hturn _ (List.mem_of_mem_filter hmem)
        simp [Job.endCallback] at hjob
  | close callback =>
      rw [TcpServer.apply, close, service_endService]
      exact h.request callback
  | shutdown callback =>
      rw [TcpServer.apply, shutdown, service_endService]
      exact h.request callback
  | scheduleRemoval =>
      rw [TcpServer.apply, service_scheduleRemoval]
      split
      · exact h.request none
      · exact h
  | closeClient i | shutdownClient i | resetClient i accepted => exact h

theorem step_tidy {e : Event} (h : s.service.Tidy) (hturn : s.ListensInTurn e)
    (hstep : s.step e = some t) : t.service.Tidy := by
  cases e with
  | call user =>
      cases hstep
      exact tidy_apply h hturn
  | leave =>
      rw [service_leave hstep]
      exact h
  | loop completion =>
      obtain ⟨_, hstep⟩ := by simpa [step] using hstep
      by_cases hscheduled : completion = .scheduled
      · subst hscheduled
        exact tidy_scheduled h hstep
      · by_cases hclosed : completion = .closed
        · subst hclosed
          obtain ⟨_, rfl⟩ := by simpa [TcpServer.handleCompletion] using hstep
          rw [service_onClose]
          exact h.closed.close
        · obtain ⟨connections, hservice, hcome⟩ := service_handleCompletion hscheduled hclosed hstep
          rw [hservice]
          exact h.withConnections hcome

/-! ## Runs -/

/-- The set holds the accepted clients whose close callback has not run, each of the others was
removed from it once, and the end callback reports success only to an empty set. -/
structure ClientsTracked (s : TcpServer) : Prop where
  members : ∀ i, i ∈ s.clientConnections ↔
    (s.clients i).accepted = true ∧ (s.clients i).closed = false
  removedOnce : ∀ i, s.removed.count i = if (s.clients i).closed then 1 else 0
  endedEmpty : ∀ callback error connections, .ended callback error connections ∈ s.calls →
    error.isError = false → connections = ∅

theorem clientsTracked (htallied : s.Tallied) (htidy : s.service.Tidy) : s.ClientsTracked where
  members := htallied.members
  removedOnce i := by
    rw [htallied.removed i]
    cases (s.clients i).closed <;> rfl
  endedEmpty callback error connections hmem := by
    refine htidy.ends callback error connections ?_
    simpa [service, Call.endCallback] using hmem

theorem start_tallied : ({} : TcpServer).Tallied where
  staged _ := Nat.zero_le _
  fresh _ _ := rfl
  members _ := iff_of_false (Finset.notMem_empty _) nofun
  removed _ := rfl

theorem start_tidy : ({} : TcpServer).service.Tidy := ⟨nofun, nofun⟩

/-- Wherever a run of a server may stop. -/
theorem clients_tracked {run : List Event}
    (h : exec (restrict ListensInTurn step) {} run = some s) : s.ClientsTracked := by
  have hkeep (u : TcpServer) (e : Event) (w : TcpServer) (hu : u.Tallied ∧ u.service.Tidy)
      (hstep : restrict ListensInTurn step u e = some w) : w.Tallied ∧ w.service.Tidy := by
    obtain ⟨hturn, hstep⟩ := restrict_eq_some.mp hstep
    exact ⟨step_tallied hu.1 hstep, step_tidy hu.2 hturn hstep⟩
  obtain ⟨htallied, htidy⟩ := exec_invariant hkeep ⟨start_tallied, start_tidy⟩ h
  exact clientsTracked htallied htidy

/-- Of three connections the second has no peer name, and the third ends by itself. The server is
closed before the first one, and then listens again. -/
def servedAndClosed : List Event :=
  [.call (.listen {} {}), .loop (.connection {}), .leave,
    .loop (.connection { peerName := .ofCode .notConnected }), .leave,
    .loop (.connection {}), .leave, .loop (.data 0 5), .leave,
    .loop (.failure 2 (.ofCode .endOfFile) {}), .leave, .call (.close (some 7)), .loop .closed,
    .loop (.clientClosed 2), .loop .scheduled, .loop (.clientClosed 0), .leave, .loop .scheduled,
    .loop .scheduled, .call (.listen {} {}), .leave, .loop (.connection {})]

theorem clients_tracked_servedAndClosed :
    ∃ s, exec (restrict ListensInTurn step) {} servedAndClosed = some s ∧
      s.clientConnections = {3} ∧ s.removed = [2, 0] ∧ .ended 7 {} ∅ ∈ s.calls ∧
      s.ClientsTracked := by
  have hend : ∃ s ∈ exec (restrict ListensInTurn step) {} servedAndClosed,
      s.clientConnections = {3} ∧ s.removed = [2, 0] ∧ .ended 7 {} ∅ ∈ s.calls := by
    decide +kernel
  obtain ⟨s, hrun, hset, hremoved, hended⟩ := hend
  exact ⟨s, hrun, hset, hremoved, hended, clients_tracked hrun⟩

end TcpServer

end TarmIo.Net.Tcp
