import TarmIo.Foundation.Cycles
import TarmIo.Fs.Dir
import Mathlib.Algebra.BigOperators.Group.List.Basic
import Mathlib.Algebra.Ring.Nat

/-!
# The callbacks passed to `open` of a directory

A directory that could not be opened is in the state of an open one. The next `open` closes it
first, `close` returns without a word since there is no directory, and the callback that was passed
to `open` is lost with the one passed to `close`. No other callback is lost or called twice, and
left to the loop a directory always comes to a quiet state.
-/

namespace TarmIo.Fs

open Foundation

namespace Dir

/-! ## Where a callback is -/

def Call.answeredOpen : Call → Option Nat
  | .opened callback _ => some callback
  | .closed .. | .entry .. | .endList .. => none

def answered (s : Dir) : List Nat := s.calls.filterMap Call.answeredOpen

def Job.opens : Job → List Nat
  | .openDir callback => callback.toList
  | .close callback => callback.opens
  | .endList .. => []

def opening (s : Dir) : List Nat :=
  match s.openRequests with
  | 0 => []
  | _ + 1 => s.openCallback.toList

def waiting (s : Dir) : List Nat :=
  s.scheduled.flatMap Job.opens ++ s.closeRequests.flatMap CloseCallback.opens ++ s.opening

def due (s : Dir) (c : Nat) : Nat := s.answered.count c + s.waiting.count c

@[simp] theorem due_schedule (s : Dir) (job : Job) (c : Nat) :
    (s.schedule job).due c = s.due c + job.opens.count c := by
  simp only [due, answered, waiting, opening, schedule, List.flatMap_append, List.flatMap_singleton,
    List.count_append]
  omega

@[simp] theorem due_log (s : Dir) (call : Call) (c : Nat) :
    (s.log call).due c = s.due c + call.answeredOpen.toList.count c := by
  have hcall : List.filterMap Call.answeredOpen [call] = call.answeredOpen.toList := by
    cases call <;> rfl
  simp only [due, answered, waiting, opening, log, List.filterMap_append, List.count_append, hcall]
  omega

theorem due_runCloseCallback (s : Dir) (callback : CloseCallback) (error : Error) (c : Nat) :
    (s.runCloseCallback callback error).1.due c = s.due c + callback.opens.count c := by
  refine CloseCallback.run_cases (P := fun callback t => t.due c = s.due c + callback.opens.count c)
    closeReport s error ?_ ?_ ?_ ?_ callback
  · intro callback hnone
    simp [hnone]
  · simp [closeReport, Call.answeredOpen, CloseCallback.opens]
  · simp [closeReport, Call.answeredOpen, CloseCallback.opens]
  · simp [closeReport, Job.opens, CloseCallback.opens]

theorem runCloseCallback_eq (s : Dir) (callback : CloseCallback) (error : Error) :
    ∃ calls scheduled, (s.runCloseCallback callback error).1 =
      { s with calls := calls, scheduled := scheduled } := by
  refine CloseCallback.run_cases
    (P := fun _ t => ∃ calls scheduled, t = { s with calls := calls, scheduled := scheduled })
    closeReport s error ?_ ?_ ?_ ?_ callback
  · exact fun _ _ => ⟨_, _, rfl⟩
  · exact fun _ => ⟨_, _, rfl⟩
  · exact fun _ => ⟨_, _, rfl⟩
  · exact fun _ _ => ⟨_, _, rfl⟩

theorem openDir_cases {P : Dir → Prop} (s : Dir) (callback : Option Nat)
    (closes : s.state = .opened → P (s.close (.reopen callback)))
    (waits : s.state = .opening ∨ s.state = .wantClose ∨ s.state = .closing →
      P (s.schedule (.openDir callback)))
    (opens : s.state = .initial ∨ s.state = .closed → P (s.requestOpen callback)) :
    P (s.openDir callback) := by
  cases hstate : s.state <;>
    simp only [openDir, continueOpen, FsObject.isOpened, FsObject.isInitialOrClosed, hstate]
  · exact opens (.inl hstate)
  · exact waits (.inl hstate)
  · exact closes hstate
  · exact waits (.inr (.inl hstate))
  · exact waits (.inr (.inr hstate))
  · exact opens (.inr hstate)

theorem close_cases {P : Dir → Prop} {s : Dir} (h : s.readRequest = none)
    (callback : CloseCallback) (absent : s.isOpen = false → P s)
    (busy : s.isOpen = true → s.state = .closing →
      P (s.runCloseCallback callback (.ofCode .operationAlreadyInProgress)).1)
    (closes : s.isOpen = true → s.state ≠ .closing →
      P { s with state := .closing, closeRequests := s.closeRequests ++ [callback] }) :
    P (s.close callback) := by
  unfold close
  split
  next hopen => exact absent (by simpa using hopen)
  next hopen =>
    have hisOpen : s.isOpen = true := by simpa using hopen
    split
    next hlisted => simp [h] at hlisted
    next =>
      split
      next hstate => exact busy hisOpen hstate
      next hstate => exact closes hisOpen hstate

/-! ## Steps -/

variable {s s' : Dir}

@[simp] theorem turnover_scheduled_eq_some :
    s.turnover .scheduled = some s' ↔
      ∃ job rest, s.scheduled = job :: rest ∧ { s with scheduled := rest }.runJob job = s' := by
  simp only [turnover]
  split
  next hnil => simp [hnil]
  next job rest hcons => simp [hcons]

@[simp] theorem turnover_opened_eq_some {error : Error} :
    s.turnover (.opened error) = some s' ↔
      ∃ n, s.openRequests = n + 1 ∧ { s with openRequests := n }.onOpenDir error = s' := by
  simp only [turnover]
  split
  next hzero => simp [hzero]
  next n hsucc => simp [hsucc]

@[simp] theorem turnover_closed_eq_some {callback : CloseCallback} {error : Error} :
    s.turnover (.closed callback error) = some s' ↔
      callback ∈ s.closeRequests ∧
        { s with closeRequests := s.closeRequests.erase callback }.onCloseDir callback error =
          s' := by
  simp only [turnover]
  split <;> simp [*]

@[simp] theorem turnover_readDone_eq_some {request : ListRequest} {outcome : ReadDirOutcome} :
    s.turnover (.readDone request outcome) = some s' ↔
      request ∈ s.reads ∧
        { s with reads := s.reads.erase request }.onReadDir request outcome = s' := by
  simp only [turnover]
  split <;> simp [*]

@[simp] theorem step_leave_eq_some :
    s.step .leave = some s' ↔
      ∃ frame, s.running = some frame ∧ { s with running := none }.resume frame = s' := by
  simp only [step]
  split
  next hnone => simp [hnone]
  next frame hsome => simp [hsome]

@[simp] theorem step_loop_eq_some {turn : Turnover} :
    s.step (.loop turn) = some s' ↔ s.running = none ∧ s.turnover turn = some s' := by
  simp only [step]
  split <;> simp [*]

/-! ## A directory that is not listed -/

def UserCall.opensOrCloses : UserCall → Bool
  | .openDir _ | .close _ => true
  | .list .. | .stop => false

def Event.opensOrCloses : Event → Bool
  | .call userCall => userCall.opensOrCloses
  | .leave | .loop _ => true

def openStep : Dir → Event → Option Dir := restrict (fun _ e => e.opensOrCloses = true) step

/-- The requests that libuv has in each state, and whether there is a directory. -/
def Requests (state : State) (openRequests : Nat) (closeRequests : List CloseCallback)
    (isOpen : Bool) : Prop :=
  match state with
  | .initial | .closed => openRequests = 0 ∧ closeRequests = [] ∧ isOpen = false
  | .opening => openRequests = 1 ∧ closeRequests = [] ∧ isOpen = false
  | .opened => openRequests = 0 ∧ closeRequests = []
  | .closing => openRequests = 0 ∧ (∃ callback, closeRequests = [callback]) ∧ isOpen = true
  | .wantClose => False

structure Orderly (s : Dir) : Prop where
  requests : Requests s.state s.openRequests s.closeRequests s.isOpen
  unlisted : s.readRequest = none
  reads : s.reads = []
  jobs : ∀ job ∈ s.scheduled, ∃ callback, job = .openDir callback
  frame : ∀ frame ∈ s.running, frame = .last

namespace Orderly

theorem initial : Orderly {} := ⟨⟨rfl, rfl, rfl⟩, rfl, rfl, by simp, by simp⟩

theorem schedule (h : Orderly s) (callback : Option Nat) :
    Orderly (s.schedule (.openDir callback)) :=
  { h with
    jobs := by
      intro job hmem
      rcases List.mem_append.mp hmem with hold | hnew
      · exact h.jobs job hold
      · exact ⟨callback, List.mem_singleton.mp hnew⟩ }

theorem runCloseCallback (h : Orderly s) (callback : CloseCallback) (error : Error) :
    Orderly (s.runCloseCallback callback error).1 := by
  refine CloseCallback.run_cases (P := fun _ t => Orderly t) closeReport s error ?_ ?_ ?_ ?_
    callback
  · exact fun _ _ => h
  · exact fun _ => { h with }
  · exact fun _ => { h with }
  · exact fun _ _ => h.schedule _

theorem close (h : Orderly s) (callback : CloseCallback) : Orderly (s.close callback) := by
  refine close_cases h.unlisted callback (fun _ => h) (fun _ _ => h.runCloseCallback ..) ?_
  intro hopen hstate
  have hrequests := h.requests
  refine ⟨?_, h.unlisted, h.reads, h.jobs, h.frame⟩
  cases hs : s.state <;> simp_all [Requests]

theorem openDir (h : Orderly s) (callback : Option Nat) : Orderly (s.openDir callback) := by
  refine openDir_cases s callback (fun _ => h.close _) (fun _ => h.schedule callback) ?_
  intro hstate
  have hrequests := h.requests
  refine ⟨?_, h.unlisted, h.reads, h.jobs, h.frame⟩
  rcases hstate with hs | hs <;> simp_all [Requests, requestOpen]

theorem onOpenDir (h : Orderly s) {n : Nat} (hn : s.openRequests = n + 1) (error : Error) :
    Orderly ({ s with openRequests := n }.onOpenDir error) := by
  have hrequests := h.requests
  have hnone : n = 0 ∧ s.closeRequests = [] := by
    cases hs : s.state <;> simp_all [Requests]
  unfold Dir.onOpenDir
  dsimp only
  split
  · exact ⟨hnone, h.unlisted, h.reads, h.jobs, h.frame⟩
  · exact ⟨hnone, h.unlisted, h.reads, h.jobs, by simp⟩

theorem rest (h : Orderly s) {job : Job} {rest : List Job} (hjobs : s.scheduled = job :: rest) :
    Orderly { s with scheduled := rest } :=
  { h with jobs := fun job hmem => h.jobs job (by simp [hjobs, hmem]) }

theorem opening (h : Orderly s) {n : Nat} (hn : s.openRequests = n + 1) : n = 0 := by
  have hrequests := h.requests
  cases hs : s.state <;> simp_all [Requests]

theorem closing (h : Orderly s) {callback : CloseCallback} (hmem : callback ∈ s.closeRequests) :
    s.state = .closing ∧ s.closeRequests = [callback] ∧ s.openRequests = 0 ∧ s.isOpen = true := by
  have hrequests := h.requests
  cases hs : s.state <;> simp_all [Requests]
  obtain ⟨other, hother⟩ := hrequests.2.1
  simp_all

theorem onCloseDir (h : Orderly s) {callback : CloseCallback} (hmem : callback ∈ s.closeRequests)
    (error : Error) :
    Orderly
      ({ s with closeRequests := s.closeRequests.erase callback }.onCloseDir callback error) := by
  obtain ⟨-, honly, hopen, -⟩ := h.closing hmem
  have hclosed : Orderly
      { s with
        closeRequests := s.closeRequests.erase callback
        isOpen := false
        state := .closed } :=
    ⟨⟨hopen, by simp [honly], rfl⟩, h.unlisted, h.reads, h.jobs, h.frame⟩
  have hcall := hclosed.runCloseCallback callback error
  unfold Dir.onCloseDir
  split
  next heq =>
    rw [heq] at hcall
    exact ⟨hcall.requests, hcall.unlisted, hcall.reads, hcall.jobs, by simp⟩
  next heq => rwa [heq] at hcall

theorem step {s s' : Dir} {e : Event} (h : Orderly s) (hstep : openStep s e = some s') :
    Orderly s' := by
  obtain ⟨hdomain, hstep⟩ := restrict_eq_some.mp hstep
  cases e with
  | call userCall =>
      cases userCall with
      | openDir callback =>
          cases hstep
          refine openDir ?_ callback
          exact ⟨h.requests, h.unlisted, h.reads, h.jobs, h.frame⟩
      | close callback =>
          cases hstep
          exact h.close _
      | list request refusal => cases hdomain
      | stop => cases hdomain
  | leave =>
      obtain ⟨frame, hrun, rfl⟩ := step_leave_eq_some.mp hstep
      cases h.frame frame hrun
      exact ⟨h.requests, h.unlisted, h.reads, h.jobs, by simp [resume]⟩
  | loop turn =>
      obtain ⟨hrun, hturn⟩ := step_loop_eq_some.mp hstep
      cases turn with
      | scheduled =>
          obtain ⟨job, rest, hjobs, rfl⟩ := turnover_scheduled_eq_some.mp hturn
          obtain ⟨callback, rfl⟩ := h.jobs job (by simp [hjobs])
          exact (h.rest hjobs).openDir callback
      | opened error =>
          obtain ⟨n, hn, rfl⟩ := turnover_opened_eq_some.mp hturn
          exact h.onOpenDir hn error
      | closed callback error =>
          obtain ⟨hmem, rfl⟩ := turnover_closed_eq_some.mp hturn
          exact h.onCloseDir hmem error
      | readDone request outcome =>
          obtain ⟨hmem, -⟩ := turnover_readDone_eq_some.mp hturn
          rw [h.reads] at hmem
          cases hmem

end Orderly

/-! ## Callbacks that are lost -/

variable {rest : List Job} {e : Event}

/-- What is lost by an `open`: after one that failed there is nothing to close. -/
def dropped (s : Dir) (callback : Option Nat) : List Nat :=
  if s.state = .opened ∧ s.isOpen = false then callback.toList else []

theorem due_close (h : s.readRequest = none) (hopen : s.isOpen = true) (callback : CloseCallback)
    (c : Nat) : (s.close callback).due c = s.due c + callback.opens.count c := by
  refine close_cases (P := fun t => t.due c = s.due c + callback.opens.count c) h callback
    (fun habsent => ?_) (fun _ _ => due_runCloseCallback ..) fun _ _ => ?_
  · cases hopen.symm.trans habsent
  · simp only [due, answered, waiting, opening, List.flatMap_append, List.flatMap_singleton,
      List.count_append]
    omega

theorem close_of_absent (h : s.isOpen = false) (callback : CloseCallback) :
    s.close callback = s := by
  simp [close, h]

theorem due_openDir (h : Orderly s) (callback : Option Nat) (c : Nat) :
    (s.openDir callback).due c + (s.dropped callback).count c =
      s.due c + callback.toList.count c := by
  refine openDir_cases
    (P := fun t => t.due c + (s.dropped callback).count c = s.due c + callback.toList.count c)
    s callback (fun hstate => ?_) (fun hstate => ?_) fun hstate => ?_
  · cases hopen : s.isOpen with
    | false => simp [close_of_absent hopen, dropped, hstate, hopen]
    | true =>
        rw [due_close h.unlisted hopen]
        simp [dropped, hopen, CloseCallback.opens]
  · have hnot : s.state ≠ .opened := by rcases hstate with hs | hs | hs <;> simp [hs]
    simp [dropped, hnot, Job.opens]
  · have hnot : s.state ≠ .opened := by rcases hstate with hs | hs <;> simp [hs]
    have hrequests := h.requests
    have hnone : s.openRequests = 0 := by
      rcases hstate with hs | hs <;> simp_all [Requests]
    simp only [due, answered, waiting, opening, requestOpen, dropped, hnot, hnone, false_and,
      if_false, List.count_append, List.count_nil]
    omega

theorem due_onOpenDir (h : s.openRequests = 1) (error : Error) (c : Nat) :
    ({ s with openRequests := 0 }.onOpenDir error).due c = s.due c := by
  have hdue : s.due c = { s with openRequests := 0 }.due c + s.openCallback.toList.count c := by
    simp only [due, answered, waiting, opening, h, List.append_nil, List.count_append]
    omega
  rw [hdue]
  unfold onOpenDir
  dsimp only
  split
  next hnull =>
    rw [hnull]
    rfl
  next callback hcallback =>
    rw [hcallback]
    exact due_log { s with openRequests := 0 } (.opened callback error) c

theorem due_onCloseDir (s : Dir) (callback : CloseCallback) (error : Error) (c : Nat) :
    (s.onCloseDir callback error).due c = s.due c + callback.opens.count c := by
  refine Eq.trans ?_
    (due_runCloseCallback { s with isOpen := false, state := .closed } callback error c)
  unfold onCloseDir
  split
  next heq =>
    rw [heq]
    rfl
  next heq => rw [heq]

def lost (s : Dir) : Event → List Nat
  | .call (.openDir callback) => s.dropped callback
  | .loop .scheduled =>
      match s.scheduled with
      | .openDir callback :: _ => s.dropped callback
      | _ => []
  | _ => []

def LosesNone (s : Dir) (e : Event) : Prop := s.lost e = []

instance (s : Dir) (e : Event) : Decidable (LosesNone s e) :=
  inferInstanceAs (Decidable (s.lost e = []))

theorem passed_runCloseCallback (s : Dir) (callback : CloseCallback) (error : Error) :
    (s.runCloseCallback callback error).1.passed = s.passed := by
  obtain ⟨calls, scheduled, heq⟩ := runCloseCallback_eq s callback error
  rw [heq]

theorem passed_close (h : Orderly s) (callback : CloseCallback) :
    (s.close callback).passed = s.passed :=
  close_cases (P := fun t => t.passed = s.passed) h.unlisted callback (fun _ => rfl)
    (fun _ _ => passed_runCloseCallback ..) fun _ _ => rfl

theorem passed_openDir (h : Orderly s) (callback : Option Nat) :
    (s.openDir callback).passed = s.passed :=
  openDir_cases (P := fun t => t.passed = s.passed) s callback (fun _ => passed_close h _)
    (fun _ => rfl) fun _ => rfl

theorem passed_onOpenDir (s : Dir) (error : Error) : (s.onOpenDir error).passed = s.passed := by
  unfold onOpenDir
  dsimp only
  split <;> rfl

theorem passed_onCloseDir (s : Dir) (callback : CloseCallback) (error : Error) :
    (s.onCloseDir callback error).passed = s.passed := by
  have hcall := passed_runCloseCallback { s with isOpen := false, state := .closed } callback error
  unfold onCloseDir
  split
  next heq => rwa [heq] at hcall
  next heq => rwa [heq] at hcall

/-- The close of the user carries no callback of `open`. -/
theorem due_close_user (h : Orderly s) (callback : Option Nat) (c : Nat) :
    (s.close (.user callback)).due c = s.due c := by
  cases hopen : s.isOpen with
  | false => rw [close_of_absent hopen]
  | true => exact due_close h.unlisted hopen (.user callback) c

/-- What the first job that waits is to answer. -/
theorem due_pop {job : Job} (hjobs : s.scheduled = job :: rest) (c : Nat) :
    s.due c = { s with scheduled := rest }.due c + job.opens.count c := by
  simp only [due, answered, waiting, opening, hjobs, List.flatMap_cons, List.count_append]
  omega

theorem due_closed {callback : CloseCallback} (honly : s.closeRequests = [callback]) (c : Nat) :
    s.due c = { s with closeRequests := s.closeRequests.erase callback }.due c +
      callback.opens.count c := by
  simp only [due, answered, waiting, opening, honly, List.erase_cons_head, List.flatMap_nil,
    List.flatMap_singleton, List.count_append, List.append_nil]
  omega

/-- What an event adds to the callbacks that were passed, it adds to those that were called or wait,
unless it loses it. -/
theorem due_step (h : Orderly s) (hstep : openStep s e = some s') (c : Nat) :
    s'.due c + (s.lost e).count c + s.passed.count c = s.due c + s'.passed.count c := by
  obtain ⟨hdomain, hstep⟩ := restrict_eq_some.mp hstep
  cases e with
  | call userCall =>
      cases userCall with
      | openDir callback =>
          cases hstep
          have horderly : Orderly { s with passed := s.passed ++ callback.toList } :=
            ⟨h.requests, h.unlisted, h.reads, h.jobs, h.frame⟩
          have hdue := due_openDir horderly callback c
          rw [passed_openDir horderly, List.count_append]
          change _ + (s.dropped callback).count c = s.due c + _ at hdue
          change _ + (s.dropped callback).count c + _ = _
          omega
      | close callback =>
          cases hstep
          rw [due_close_user h, passed_close h]
          rfl
      | list request refusal => cases hdomain
      | stop => cases hdomain
  | leave =>
      obtain ⟨frame, hrun, rfl⟩ := step_leave_eq_some.mp hstep
      cases h.frame frame hrun
      rfl
  | loop turn =>
      obtain ⟨hrun, hturn⟩ := step_loop_eq_some.mp hstep
      cases turn with
      | scheduled =>
          obtain ⟨job, rest, hjobs, rfl⟩ := turnover_scheduled_eq_some.mp hturn
          obtain ⟨callback, rfl⟩ := h.jobs job (by simp [hjobs])
          have hrest := h.rest hjobs
          have hdue := due_openDir hrest callback c
          have hlost : s.lost (.loop .scheduled) =
              { s with scheduled := rest }.dropped callback := by
            simp only [lost, hjobs]
            rfl
          rw [runJob, passed_openDir hrest, hlost, due_pop hjobs c, Job.opens]
          change _ + _ + s.passed.count c = _ + s.passed.count c
          omega
      | opened error =>
          obtain ⟨n, hn, rfl⟩ := turnover_opened_eq_some.mp hturn
          obtain rfl := h.opening hn
          rw [due_onOpenDir hn, passed_onOpenDir]
          rfl
      | closed callback error =>
          obtain ⟨hmem, rfl⟩ := turnover_closed_eq_some.mp hturn
          obtain ⟨-, honly, -⟩ := h.closing hmem
          rw [due_onCloseDir, passed_onCloseDir, due_closed honly c]
          rfl
      | readDone request outcome =>
          obtain ⟨hmem, -⟩ := turnover_readDone_eq_some.mp hturn
          rw [h.reads] at hmem
          cases hmem

/-- No callback was called or waits more often than it was passed. -/
structure Accounted (s : Dir) : Prop where
  orderly : Orderly s
  le : ∀ c, s.due c ≤ s.passed.count c

theorem Accounted.initial : Accounted {} := ⟨.initial, fun _ => le_rfl⟩

theorem Accounted.step (h : Accounted s) (hstep : openStep s e = some s') : Accounted s' := by
  refine ⟨h.orderly.step hstep, fun c => ?_⟩
  have hdue := due_step h.orderly hstep c
  have hle := h.le c
  omega

/-- Each callback was called or waits as often as it was passed. -/
def Balanced (s : Dir) : Prop := ∀ c, s.due c = s.passed.count c

theorem balanced_step_iff (h : Accounted s) (hstep : openStep s e = some s') :
    s'.Balanced ↔ s.Balanced ∧ s.LosesNone e := by
  constructor
  · intro hbalanced
    have hcount : ∀ c, s.due c = s.passed.count c ∧ (s.lost e).count c = 0 := by
      intro c
      have hdue := due_step h.orderly hstep c
      have hle := h.le c
      have hc := hbalanced c
      omega
    refine ⟨fun c => (hcount c).1, List.eq_nil_iff_forall_not_mem.mpr fun c => ?_⟩
    exact List.count_eq_zero.mp (hcount c).2
  · rintro ⟨hbalanced, hnone⟩ c
    have hdue := due_step h.orderly hstep c
    rw [show s.lost e = [] from hnone, List.count_nil] at hdue
    have hc := hbalanced c
    omega

/-! ## Cycles of the loop -/

def Quiet (s : Dir) : Prop :=
  s.scheduled = [] ∧ s.openRequests = 0 ∧ s.closeRequests = [] ∧ s.reads = []

instance (s : Dir) : Decidable s.Quiet := by
  unfold Quiet
  infer_instance

def returned (s : Dir) : Dir := attempt openStep s .leave

def turn (s : Dir) : Dir := (attempt openStep s (.loop .scheduled)).returned

def complete (s : Dir) (error : Error) : Dir :=
  match s.openRequests, s.closeRequests with
  | _ + 1, _ => (attempt openStep s (.loop (.opened error))).returned
  | 0, callback :: _ => (attempt openStep s (.loop (.closed callback error))).returned
  | 0, [] => s

def loop : LoopTurns Dir Unit Error where
  jobs s := s.scheduled.length
  turn _ s := s.turn
  complete error s := s.complete error

def State.rank : State → Nat
  | .initial | .closed => 0
  | .wantClose | .closing => 2
  | .opening | .opened => 3

def Job.rank : Job → Nat
  | .openDir _ => 5
  | .close _ | .endList .. => 1

def rank (s : Dir) : Nat :=
  (s.scheduled.map Job.rank).sum + (s.closeRequests.map CloseCallback.rank).sum + s.openRequests +
    s.state.rank

def Pending (s : Dir) : Prop := s.openRequests ≠ 0 ∨ s.closeRequests ≠ []

def Idle (s : Dir) : Prop := Reaches openStep {} s ∧ s.running = none

theorem accounted_of_reaches (h : Reaches openStep {} s) : Accounted s := by
  obtain ⟨run, hrun⟩ := h
  exact exec_invariant (fun _ _ _ hs hstep => hs.step hstep) .initial hrun

theorem Idle.orderly (h : Idle s) : Orderly s := (accounted_of_reaches h.1).orderly

/-- Nothing follows a callback of the user. -/
theorem returned_spec (h : Reaches openStep {} s) :
    Idle s.returned ∧ s.returned = { s with running := none } := by
  have hreaches : Reaches openStep {} s.returned := h.attempt _
  have heq : s.returned = { s with running := none } := by
    cases hrun : s.running with
    | none =>
        rw [returned, attempt_of_none (by simp [openStep, restrict, step, hrun]), ← hrun]
    | some frame =>
        cases (accounted_of_reaches h).orderly.frame frame hrun
        exact attempt_of_some (restrict_eq_some.mpr ⟨rfl, step_leave_eq_some.mpr ⟨_, hrun, rfl⟩⟩)
  exact ⟨⟨hreaches, by rw [heq]⟩, heq⟩

theorem rank_schedule (s : Dir) (job : Job) : (s.schedule job).rank = s.rank + job.rank := by
  simp only [rank, schedule, List.map_append, List.map_singleton, List.sum_append,
    List.sum_singleton]
  omega

theorem rank_runCloseCallback_le (s : Dir) (callback : CloseCallback) (error : Error) :
    (s.runCloseCallback callback error).1.rank ≤ s.rank + callback.rank := by
  refine CloseCallback.run_cases (P := fun callback t => t.rank ≤ s.rank + callback.rank)
    closeReport s error ?_ ?_ ?_ ?_ callback
  · exact fun _ _ => Nat.le_add_right ..
  · exact fun _ => Nat.le_add_right ..
  · exact fun _ => Nat.le_add_right ..
  · exact fun _ _ => (rank_schedule ..).le

/-- The close that comes before an open has less to do than the open. -/
theorem rank_close_lt (h : s.readRequest = none) (hstate : s.state = .opened)
    (callback : Option Nat) : (s.close (.reopen callback)).rank < s.rank + 5 := by
  refine close_cases (P := fun t => t.rank < s.rank + 5) h (.reopen callback)
    (fun _ => by omega) (fun _ hclosing => ?_) fun _ _ => ?_
  · cases hstate.symm.trans hclosing
  · simp only [rank, hstate, State.rank, CloseCallback.rank, List.map_append, List.map_singleton,
      List.sum_append, List.sum_singleton]
    omega

/-- A request is pending exactly where an open has to wait. -/
theorem Orderly.pending_iff (h : Orderly s) :
    s.Pending ↔ s.state = .opening ∨ s.state = .closing := by
  have hrequests := h.requests
  cases hs : s.state <;> simp_all [Requests, Pending]
  obtain ⟨callback, hcallback⟩ := hrequests.2.1
  simp [hcallback]

theorem rank_openDir_lt (h : Orderly s) (hpending : ¬ s.Pending) (callback : Option Nat) :
    (s.openDir callback).rank < s.rank + 5 := by
  rw [h.pending_iff, not_or] at hpending
  refine openDir_cases (P := fun t => t.rank < s.rank + 5) s callback
    (fun hstate => rank_close_lt h.unlisted hstate callback) (fun hstate => ?_) fun hstate => ?_
  · rcases hstate with hs | hs | hs
    · exact absurd hs hpending.1
    · have hrequests := h.requests
      rw [hs] at hrequests
      exact hrequests.elim
    · exact absurd hs hpending.2
  · rcases hstate with hs | hs <;> simp only [requestOpen, rank, hs, State.rank] <;> omega

/-- An open that has to wait is scheduled again. -/
theorem openDir_of_pending (h : Orderly s) (hpending : s.Pending) (callback : Option Nat) :
    s.openDir callback = s.schedule (.openDir callback) := by
  rcases h.pending_iff.mp hpending with hs | hs <;>
    simp [openDir, continueOpen, FsObject.isOpened, FsObject.isInitialOrClosed,
      FsObject.scheduleOpen, hs]

theorem turn_of_nil (hjobs : s.scheduled = []) : s.turn = s.returned := by
  rw [turn, attempt_of_none (by simp [openStep, restrict, step, turnover, hjobs])]

theorem turn_of_cons (h : Idle s) {callback : Option Nat}
    (hjobs : s.scheduled = .openDir callback :: rest) :
    s.turn = ({ s with scheduled := rest }.openDir callback).returned ∧
      Reaches openStep {} ({ s with scheduled := rest }.openDir callback) := by
  have hattempt : attempt openStep s (.loop .scheduled) =
      { s with scheduled := rest }.openDir callback :=
    attempt_of_some (restrict_eq_some.mpr ⟨rfl,
      step_loop_eq_some.mpr ⟨h.2, turnover_scheduled_eq_some.mpr ⟨_, rest, hjobs, rfl⟩⟩⟩)
  have hreaches := h.1.attempt (.loop .scheduled)
  rw [hattempt] at hreaches
  exact ⟨by rw [turn, hattempt], hreaches⟩

theorem rank_of_cons {callback : Option Nat} (hjobs : s.scheduled = .openDir callback :: rest) :
    s.rank = { s with scheduled := rest }.rank + 5 := by
  simp only [rank, hjobs, List.map_cons, List.sum_cons, Job.rank]
  omega

/-- An open that does not have to wait leaves less to do. -/
theorem turn_rank_lt (h : Idle s) (hpending : ¬ s.Pending) (hjobs : s.scheduled ≠ []) :
    s.turn.rank < s.rank := by
  obtain ⟨job, rest, hcons⟩ := List.exists_cons_of_ne_nil hjobs
  obtain ⟨callback, rfl⟩ := h.orderly.jobs job (by simp [hcons])
  obtain ⟨heq, hreaches⟩ := turn_of_cons h hcons
  rw [heq, (returned_spec hreaches).2, rank_of_cons hcons]
  exact rank_openDir_lt (h.orderly.rest hcons) hpending callback

theorem turn_spec (h : Idle s) :
    Idle s.turn ∧ s.turn.rank ≤ s.rank ∧ (s.Pending → s.turn.Pending) := by
  cases hjobs : s.scheduled with
  | nil =>
      obtain ⟨hidle, heq⟩ := returned_spec h.1
      rw [turn_of_nil hjobs]
      exact ⟨hidle, by rw [heq]; exact le_rfl, fun hpending => by rwa [heq]⟩
  | cons job rest =>
      obtain ⟨callback, rfl⟩ := h.orderly.jobs job (by simp [hjobs])
      obtain ⟨heq, hreaches⟩ := turn_of_cons h hjobs
      obtain ⟨hidle, hreturned⟩ := returned_spec hreaches
      have hopen : s.Pending → { s with scheduled := rest }.openDir callback =
          { s with scheduled := rest }.schedule (.openDir callback) := fun hpending =>
        openDir_of_pending (h.orderly.rest hjobs) hpending callback
      refine ⟨heq ▸ hidle, ?_, fun hpending => ?_⟩
      · by_cases hpending : s.Pending
        · rw [heq, hreturned, hopen hpending, rank_of_cons hjobs]
          exact (rank_schedule ..).le
        · exact (turn_rank_lt h hpending (by simp [hjobs])).le
      · rw [heq, hreturned, hopen hpending]
        exact hpending

/-- The state of an open one ranks as that of one on its way. -/
theorem rank_onOpenDir (hstate : s.state = .opening) (error : Error) :
    (s.onOpenDir error).rank = s.rank := by
  unfold onOpenDir
  dsimp only
  split <;> simp [rank, log, hstate, State.rank]

theorem rank_onCloseDir (hstate : s.state = .closing) (callback : CloseCallback) (error : Error) :
    (s.onCloseDir callback error).rank < s.rank + callback.rank := by
  have hcall := rank_runCloseCallback_le { s with isOpen := false, state := .closed } callback error
  have hless : { s with isOpen := false, state := .closed }.rank < s.rank := by
    simp [rank, hstate, State.rank]
  unfold onCloseDir
  split
  next heq =>
    rw [heq] at hcall
    exact hcall.trans_lt (Nat.add_lt_add_right hless _)
  next heq =>
    rw [heq] at hcall
    exact hcall.trans_lt (Nat.add_lt_add_right hless _)

/-- An event of the loop that is possible, with the callback that it may run. -/
theorem attempt_returned (h : Idle s) {turn : Turnover} (hturn : s.turnover turn = some s') :
    Idle (attempt openStep s (.loop turn)).returned ∧
      (attempt openStep s (.loop turn)).returned.rank = s'.rank := by
  have hattempt : attempt openStep s (.loop turn) = s' :=
    attempt_of_some (restrict_eq_some.mpr ⟨rfl, step_loop_eq_some.mpr ⟨h.2, hturn⟩⟩)
  obtain ⟨hidle, heq⟩ := returned_spec (h.1.attempt (.loop turn))
  refine ⟨hidle, ?_⟩
  rw [heq, hattempt]
  rfl

theorem complete_spec (h : Idle s) (error : Error) :
    Idle (s.complete error) ∧ (s.complete error).rank ≤ s.rank ∧
      (s.Pending → (s.complete error).rank < s.rank) := by
  unfold complete
  split
  next n hn =>
    obtain ⟨hidle, hrank⟩ := attempt_returned h (turnover_opened_eq_some.mpr ⟨n, hn, rfl⟩)
    have hstate : s.state = .opening := by
      have hrequests := h.orderly.requests
      cases hs : s.state <;> simp_all [Requests]
    have hless : (attempt openStep s (.loop (.opened error))).returned.rank < s.rank := by
      rw [hrank, rank_onOpenDir (s := { s with openRequests := n }) hstate]
      simp [rank, hn]
    exact ⟨hidle, hless.le, fun _ => hless⟩
  next callback _ _ hcons =>
    have hmem : callback ∈ s.closeRequests := by simp [hcons]
    obtain ⟨hstate, honly, -⟩ := h.orderly.closing hmem
    obtain ⟨hidle, hrank⟩ := attempt_returned h (turnover_closed_eq_some.mpr ⟨hmem, rfl⟩)
    have hless : (attempt openStep s (.loop (.closed callback error))).returned.rank < s.rank := by
      rw [hrank]
      refine LT.lt.trans_le (rank_onCloseDir ?_ callback error) ?_
      · exact hstate
      · simp only [rank, honly, List.erase_cons_head, List.map_nil, List.map_singleton,
          List.sum_nil, List.sum_singleton]
        omega
    exact ⟨hidle, hless.le, fun _ => hless⟩
  next hopen hclose => exact ⟨h, le_rfl, fun hpending => (hpending.elim (· hopen) (· hclose)).elim⟩

/-- The loop always leads to a quiet state. -/
theorem loop_ranked : loop.Ranked Idle Pending Quiet rank where
  turn _ _ h := turn_spec h
  complete error _ h := complete_spec h error
  ready := by
    intro _ s h hpending hquiet
    have hnone : s.openRequests = 0 ∧ s.closeRequests = [] := by
      simpa [Pending, not_or] using hpending
    have hjobs : s.scheduled ≠ [] := fun hnil =>
      hquiet ⟨hnil, hnone.1, hnone.2, h.orderly.reads⟩
    exact ⟨mt List.length_eq_zero_iff.mp hjobs, turn_rank_lt h hpending hjobs⟩

def AllAnswered (s : Dir) : Prop := ∀ c, s.answered.count c = s.passed.count c

theorem allAnswered_iff_balanced (hquiet : s.Quiet) : s.AllAnswered ↔ s.Balanced := by
  obtain ⟨hjobs, hopen, hclose, -⟩ := hquiet
  simp [AllAnswered, Balanced, due, waiting, opening, hjobs, hopen, hclose]

end Dir

end TarmIo.Fs
