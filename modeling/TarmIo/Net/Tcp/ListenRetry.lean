import TarmIo.Net.Tcp.EndCallback

/-!
# Calling `listen` again after an error

`listen` stores its handle before the three calls of libuv that may fail and keeps it when they
do, and `m_is_open` is set without a look at the result of `uv_listen`. The handle is given up
by `on_close` alone, so an error lasts until the server is closed.
-/

namespace TarmIo.Net.Tcp.TcpServer

open Foundation

variable {s t : TcpServer}

/-! ## The outcomes of `listen` -/

/-- How far a call of `listen` gets, with its result and what it does to the server. -/
inductive ListenOutcome (s : TcpServer) (args : ListenArgs) (uv : UvListen) : Prop
  | invalid (endpoint : args.endpointDefined = false)
      (result : s.listen args uv = (s, .ofCode .invalidArgument))
  | refused (endpoint : args.endpointDefined = true) (handle : s.handle ≠ none)
      (result : s.listen args uv = (s, .ofCode .connectionAlreadyInProgress))
  | unbound (endpoint : args.endpointDefined = true) (handle : s.handle = none)
      (failed : uv.init.isError = true ∨ uv.bind.isError = true)
      (error : (s.listen args uv).2.isError = true)
      (server : (s.listen args uv).1 = { s with handle := some .idle })
  | bound {listener : Listener} (endpoint : args.endpointDefined = true) (handle : s.handle = none)
      (init : uv.init.isError = false) (bind : uv.bind.isError = false)
      (error : (s.listen args uv).2 = uv.listen) (isOpen : (s.listen args uv).1.isOpen = true)
      (listener_isClosing : listener.isClosing = false)
      (service : (s.listen args uv).1.service =
        { s.service with handle := some listener, isOpen := true })

theorem listen_outcome (s : TcpServer) (args : ListenArgs) (uv : UvListen) :
    s.ListenOutcome args uv := by
  cases hendpoint : args.endpointDefined with
  | false => exact .invalid hendpoint (by simp [listen, hendpoint])
  | true =>
      cases hhandle : s.handle with
      | some listener =>
          exact .refused hendpoint (by simp [hhandle]) (by simp [listen, hendpoint, hhandle])
      | none =>
          cases hinit : uv.init.isError with
          | true =>
              exact .unbound hendpoint hhandle (.inl hinit)
                (by simp [listen, hendpoint, hhandle, hinit])
                (by simp [listen, hendpoint, hhandle, hinit])
          | false =>
              cases hbind : uv.bind.isError with
              | true =>
                  exact .unbound hendpoint hhandle (.inr hbind)
                    (by simp [listen, hendpoint, hhandle, hinit, hbind])
                    (by simp [listen, hendpoint, hhandle, hinit, hbind])
              | false =>
                  refine @ListenOutcome.bound _ _ _
                    (if uv.listen.isError then .idle else .listening) hendpoint hhandle hinit hbind
                    ?_ ?_ ?_ ?_
                  · simp [listen, hendpoint, hhandle, hinit, hbind]
                  · simp [listen, hendpoint, hhandle, hinit, hbind]
                  · split <;> rfl
                  · simp [listen, hendpoint, hhandle, hinit, hbind, service]

/-! ## The calls of `listen` so far -/

/-- What became of the last `listen` that called libuv, if the server was not closed since. -/
inductive Attempt
  | none
  | failed
  | succeeded
deriving DecidableEq

structure Attempted where
  server : TcpServer := {}
  attempt : Attempt := .none

/-- `on_close` runs and finds all clients gone: the server is closed. -/
def completesClose (s : TcpServer) : Event → Bool
  | .loop .closed => s.clientConnections = ∅
  | .loop .scheduled => s.scheduled.head? = some .onClose ∧ s.clientConnections = ∅
  | .call _ | .leave | .loop _ => false

namespace Attempted

def next (x : Attempted) : Event → Attempt
  | .call (.listen args uv) =>
      if (x.server.listen args uv).2.isError = false then .succeeded
      else if args.endpointDefined = true ∧ x.server.handle = none then .failed
      else x.attempt
  | e => if x.server.completesClose e then .none else x.attempt

def step (x : Attempted) (e : Event) : Option Attempted :=
  (x.server.step e).map fun server => { server, attempt := x.next e }

theorem next_closed (x : Attempted) :
    x.next (.loop .closed) = if x.server.clientConnections = ∅ then .none else x.attempt := by
  simp [next, completesClose]

/-- The handle is there from the first call of libuv until the server is closed, and a server
that is being closed is not open. -/
structure Steady (x : Attempted) : Prop where
  wired : x.server.service.Wired
  handle : x.server.handle = none ↔ x.attempt = .none
  serving : x.server.isOpen = true → ∃ listener ∈ x.server.handle, listener.isClosing = false

variable {x y : Attempted} {listener : Listener} {a : Attempt}

theorem steady_init : ({} : Attempted).Steady := by
  refine ⟨rfl, by decide, ?_⟩
  intro h
  cases h

section

variable (hx : x.Steady)
include hx

/-- Steps that leave the handle and the flag alone. -/
theorem Steady.same (hwired : t.service.Wired) (hhandle : t.handle = x.server.handle)
    (hopen : t.isOpen = x.server.isOpen) :
    Steady { server := t, attempt := x.attempt } where
  wired := hwired
  handle := by
    rw [hhandle]
    exact hx.handle
  serving := by
    rw [hhandle, hopen]
    exact hx.serving

theorem Steady.same_service {connections : Finset Nat}
    (hservice : t.service = { x.server.service with connections := connections }) :
    Steady { server := t, attempt := x.attempt } := by
  refine hx.same ?_ (congrArg Service.handle hservice) (congrArg Service.isOpen hservice)
  rw [hservice]
  exact hx.wired

/-- A request for the end keeps a handle that is there, and the server is not open any more. -/
theorem Steady.request {callback : Option Nat}
    (hservice : t.service = x.server.service.request callback) :
    Steady { server := t, attempt := x.attempt } where
  wired := by
    rw [hservice]
    exact hx.wired.request callback
  handle := by
    have hhandle : t.handle = none ↔ x.server.handle = none := by
      have hv : t.handle = (x.server.service.request callback).handle :=
        congrArg Service.handle hservice
      rw [hv, Service.request]
      change _ ↔ x.server.service.handle = none
      rcases x.server.service.handle with _ | _ | _ | _ | _ <;> simp [Listener.isClosing]
    exact hhandle.trans hx.handle
  serving := by
    intro h
    have hopen : t.isOpen = (x.server.service.request callback).isOpen :=
      congrArg Service.isOpen hservice
    cases (hopen.trans (Service.isOpen_request callback)).symm.trans h

theorem Steady.opened {isOpen : Bool} (hnone : x.server.handle = none)
    (hlistener : listener.isClosing = false)
    (hservice : t.service = { x.server.service with handle := some listener, isOpen })
    (ha : a ≠ .none) : Steady { server := t, attempt := a } := by
  have hhandle : t.handle = some listener := congrArg Service.handle hservice
  refine ⟨?_, ?_, fun _ => ⟨listener, hhandle, hlistener⟩⟩
  · have hcount : x.server.service.jobs.count .onClose = 0 := by
      have hwired := hx.wired
      rwa [Service.Wired, show x.server.service.handle = none from hnone, if_neg (by simp)]
        at hwired
    rw [hservice, Service.Wired, hcount, if_neg]
    intro h
    cases h
    cases hlistener
  · simp [hhandle, ha]

theorem Steady.listen (args : ListenArgs) (uv : UvListen) :
    Steady
      { server := (x.server.listen args uv).1, attempt := x.next (.call (.listen args uv)) } := by
  unfold next
  cases listen_outcome x.server args uv with
  | invalid endpoint result => simpa [result, endpoint, Error.isError_ofCode] using hx
  | refused endpoint handle result => simpa [result, handle, Error.isError_ofCode] using hx
  | unbound endpoint handle failed error server =>
      exact hx.opened handle rfl (by rw [server]; rfl) (by simp [error, endpoint, handle])
  | bound endpoint handle init bind error isOpen isClosing service =>
      refine hx.opened handle isClosing service ?_
      by_cases herror : uv.listen.isError = false
      · simp [error, herror]
      · simp [error, herror, endpoint, handle]

end

/-- `on_close`, called by libuv or from the loop. -/
theorem steady_onClose {v : Service} (hv : v.handle = some .closed)
    (hnone : v.jobs.count .onClose = 0) (hservice : t.service = v.close) (hopen : v.isOpen = false)
    (ha : a ≠ .none) :
    Steady { server := t, attempt := if v.connections = ∅ then .none else a } := by
  have hclosed : t.isOpen = v.close.isOpen := congrArg Service.isOpen hservice
  rw [Service.isOpen_close, hopen] at hclosed
  refine ⟨hservice ▸ Service.wired_close hv hnone, ?_, fun h => by cases hclosed.symm.trans h⟩
  have hhandle : t.handle = v.close.handle := congrArg Service.handle hservice
  rw [hhandle, Service.close]
  by_cases hempty : v.connections = ∅
  · simp [hempty]
  · simp [hempty, hv, ha]

/-- Without a handle, and while `on_close` waits for clients, the server is not open. -/
theorem Steady.isOpen_eq_false (hx : x.Steady)
    (hclosing : ∀ listener ∈ x.server.handle, listener.isClosing = true) :
    x.server.isOpen = false := by
  rw [← Bool.not_eq_true]
  intro hopen
  obtain ⟨listener, hlistener, hserving⟩ := hx.serving hopen
  cases (hclosing listener hlistener).symm.trans hserving

theorem Steady.attempt_ne (hx : x.Steady) (hhandle : x.server.handle = some listener) :
    x.attempt ≠ .none := by
  rw [ne_eq, ← hx.handle, hhandle]
  simp

theorem Steady.apply (hx : x.Steady) (user : UserCall) :
    Steady { server := x.server.apply user, attempt := x.next (.call user) } := by
  cases user with
  | listen args uv => exact hx.listen args uv
  | close callback => exact hx.request (service_endService _ _ _)
  | shutdown callback => exact hx.request (service_endService _ _ _)
  | scheduleRemoval =>
      have hservice := service_scheduleRemoval x.server
      by_cases hcloses : x.server.removalScheduled = false ∧ x.server.handle.isSome = true
      · rw [if_pos hcloses] at hservice
        exact hx.request hservice
      · rw [if_neg hcloses] at hservice
        exact hx.same_service hservice
  | closeClient i => exact hx.same_service (service_onClient _ i _)
  | shutdownClient i => exact hx.same_service (service_onClient _ i _)
  | resetClient i accepted => exact hx.same_service (service_onClient _ i _)

theorem Steady.scheduled (hx : x.Steady)
    (hstep : x.server.handleCompletion .scheduled = some t) :
    Steady { server := t, attempt := x.next (.loop .scheduled) } := by
  obtain ⟨job, rest, hscheduled, hservice⟩ := service_scheduled hstep
  -- A callback of the user is called.
  have hcalled (hending : job.isEnding = true) (hjob : job ≠ .onClose) :
      Steady { server := t, attempt := x.attempt } := by
    obtain ⟨hhandle, hopen⟩ := Service.run_frame
      (v := { x.server.service with jobs := rest.filter Job.isEnding }) hjob
    rw [← hservice] at hhandle hopen
    exact hx.same (hservice ▸ hx.wired.run (jobs_eq hscheduled hending) hjob) hhandle hopen
  cases job with
  | onClose =>
      obtain ⟨hhandle, hnone⟩ := hx.wired.of_onClose (jobs_eq hscheduled rfl)
      have hsteady := steady_onClose
        (v := { x.server.service with jobs := rest.filter Job.isEnding }) hhandle hnone hservice
        (hx.isOpen_eq_false fun _ hl => by cases hhandle.symm.trans hl; rfl)
        (hx.attempt_ne hhandle)
      simpa [next, completesClose, hscheduled, service] using hsteady
  | notConnected => simpa [next, completesClose, hscheduled] using hcalled rfl (by simp)
  | ended callback => simpa [next, completesClose, hscheduled] using hcalled rfl (by simp)
  | readFailed i error =>
      have hsame : t.service = x.server.service := by
        rw [hservice]
        simp [service, Service.run, hscheduled, Job.isEnding]
      simpa [next, completesClose, hscheduled] using hx.same_service hsame

theorem Steady.step (e : Event) (hx : x.Steady) (hstep : x.step e = some y) : y.Steady := by
  obtain ⟨t, ht, rfl⟩ := Option.map_eq_some_iff.mp hstep
  cases e with
  | call user =>
      cases ht
      exact hx.apply user
  | leave => exact hx.same_service (service_leave ht)
  | loop completion =>
      obtain ⟨_, ht⟩ := by simpa [TcpServer.step] using ht
      by_cases hscheduled : completion = .scheduled
      · subst hscheduled
        exact hx.scheduled ht
      · by_cases hclosed : completion = .closed
        · subst hclosed
          obtain ⟨hclosing, rfl⟩ := by simpa [handleCompletion] using ht
          have hopen := hx.isOpen_eq_false fun _ hl => by cases hclosing.symm.trans hl; rfl
          have hnone : x.server.service.jobs.count .onClose = 0 := by
            simpa [Service.Wired, service, hclosing] using hx.wired
          have hsteady := steady_onClose (v := { x.server.service with handle := some .closed })
            rfl hnone (service_onClose { x.server with handle := some .closed })
            hopen (hx.attempt_ne hclosing)
          rwa [next_closed]
        · obtain ⟨connections, hservice, _⟩ := service_handleCompletion hscheduled hclosed ht
          have hnext : x.next (.loop completion) = x.attempt := by
            cases completion with
            | scheduled => exact absurd rfl hscheduled
            | closed => exact absurd rfl hclosed
            | connection | data | failure | shutdown | clientClosed => rfl
          rw [hnext]
          exact hx.same_service hservice

/-! ## Retrying -/

/-- Whatever libuv would say, the call returns `CONNECTION_ALREADY_IN_PROGRESS`. -/
def Refused (s : TcpServer) (args : ListenArgs) : Prop :=
  ∀ uv, (s.listen args uv).2 = .ofCode .connectionAlreadyInProgress

/-- What is expected of a call of `listen`: an error leaves the server not open, and a valid
endpoint is refused only while the server serves because of an earlier call. -/
def Retriable (x : Attempted) : Event → Prop
  | .call (.listen args uv) =>
      ((x.server.listen args uv).2.isError = true →
        (x.server.listen args uv).1.isOpen = false) ∧
      (args.endpointDefined = true → Refused x.server args → x.attempt = .succeeded)
  | .call _ | .leave | .loop _ => True

/-- The calls of `listen` that meet this: the server is not open, no earlier call failed in libuv
without the server being closed since, and `uv_listen` does not fail. -/
def Careful (x : Attempted) : Event → Prop
  | .call (.listen args uv) =>
      x.server.isOpen = false ∧
      (args.endpointDefined = true → x.attempt ≠ .failed) ∧
      (args.endpointDefined = true → x.attempt = .none → uv.init.isError = false →
        uv.bind.isError = false → uv.listen.isError = false)
  | .call _ | .leave | .loop _ => True

theorem refused_iff (s : TcpServer) {args : ListenArgs} (h : args.endpointDefined = true) :
    Refused s args ↔ s.handle ≠ none := by
  constructor
  · intro hrefused hnone
    have hresult := congrArg Error.isError (hrefused {})
    simp [listen, h, hnone, Error.isError_ofCode] at hresult
  · intro hhandle uv
    obtain ⟨listener, hlistener⟩ := Option.ne_none_iff_exists'.mp hhandle
    simp [listen, h, hlistener]

theorem Steady.retriable_iff (hx : x.Steady) (e : Event) : x.Retriable e ↔ x.Careful e := by
  match e with
  | .call (.listen args uv) =>
      have hclosed : x.server.handle = none → x.server.isOpen = false :=
        fun hnone => hx.isOpen_eq_false fun _ hl => by cases hnone.symm.trans hl
      dsimp only [Retriable, Careful]
      cases listen_outcome x.server args uv with
      | invalid endpoint result => simp [result, endpoint, Error.isError_ofCode]
      | refused endpoint handle result =>
          have hattempt : x.attempt ≠ .none := fun h => handle (hx.handle.mpr h)
          rw [refused_iff _ endpoint]
          cases hcase : x.attempt <;>
            simp_all [Error.isError_ofCode]
      | unbound endpoint handle failed error server =>
          have hattempt : x.attempt = .none := hx.handle.mp handle
          rw [refused_iff _ endpoint]
          have hopen := hclosed handle
          rcases failed with h | h <;> simp [handle, hattempt, server, hopen, h]
      | bound endpoint handle init bind error isOpen isClosing service =>
          have hattempt : x.attempt = .none := hx.handle.mp handle
          rw [refused_iff _ endpoint]
          simp [handle, hattempt, error, isOpen, init, bind, endpoint, hclosed handle]
  | .call (.close _) | .call (.shutdown _) | .call .scheduleRemoval | .call (.closeClient _)
  | .call (.shutdownClient _) | .call (.resetClient _ _) | .leave | .loop _ => exact Iff.rfl

/-- Along every run, the calls of `listen` can be retried as expected exactly when none is made
on an open server or after a call that failed in libuv without a close in between, and
`uv_listen` does not fail. -/
theorem listen_retriable_iff (run : List Event) :
    Along Attempted.step Retriable {} run ↔ Along Attempted.step Careful {} run :=
  along_congr (fun _ e _ hx hstep => hx.step e hstep) (fun _ e hx => hx.retriable_iff e)
    steady_init run

/-- The address is not available at the first call. It is at the second one, and that is refused
all the same. When it is `uv_listen` that fails, the server is open. -/
theorem listen_refused_after_failure :
    (∃ x ∈ exec Attempted.step {}
        [.call (.listen {} { bind := .ofCode .addressNotAvailable })],
      x.attempt = .failed ∧
        (x.server.listen {} {}).2.code = .connectionAlreadyInProgress ∧
        ¬ x.Retriable (.call (.listen {} {}))) ∧
    ∃ x ∈ exec Attempted.step {}
        [.call (.listen {} { listen := .ofCode .addressAlreadyInUse })],
      x.attempt = .failed ∧ x.server.isOpen = true := by
  refine ⟨⟨_, rfl, rfl, rfl, ?_⟩, ⟨_, rfl, rfl, rfl⟩⟩
  rintro ⟨_, hrefused⟩
  cases hrefused rfl fun _ => rfl

end Attempted

end TarmIo.Net.Tcp.TcpServer
