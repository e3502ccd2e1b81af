import TarmIo.Foundation.Cycles
import TarmIo.Fs.FileLifecycle
import Mathlib.Algebra.BigOperators.Group.List.Basic
import Mathlib.Algebra.Ring.Nat

/-!
# The callbacks passed to `open` of a file

A callback passed to `open` waits in the one open request, in a close that comes first, or in a
callback on the loop, until it is called. Calls of `open` and `close` neither lose one nor call it
twice. Left to the loop, an object makes its way to a quiet state, except that an open which is
asked again later waits for ever in the states of `Stuck`: after an open without callback has
succeeded, and after libuv has refused to close.
-/

namespace TarmIo.Fs

open Foundation

namespace File

/-! ## Where a callback is -/

variable {s : File} {callback : CloseCallback} {request : OpenRequest}

def Call.answeredOpen : Call → Option Nat
  | .opened callback _ => some callback
  | .closed .. | .read .. | .endRead _ => none

def answered (s : File) : List Nat := s.calls.filterMap Call.answeredOpen

def Job.opens : Job → List Nat
  | .openFile callback => callback.toList
  | .closeNotOpen callback | .closeRefused callback _ => callback.opens
  | .blockRefused .. => []

def opening (s : File) : List Nat :=
  match s.openRequests with
  | [] => []
  | _ :: _ => s.openCallback.toList

def waiting (s : File) : List Nat :=
  s.scheduled.flatMap Job.opens ++ s.closeRequests.flatMap CloseCallback.opens ++ s.opening

def due (s : File) (c : Nat) : Nat := s.answered.count c + s.waiting.count c

@[simp] theorem due_schedule (s : File) (job : Job) (c : Nat) :
    (s.schedule job).due c = s.due c + job.opens.count c := by
  simp only [due, answered, waiting, opening, schedule, List.flatMap_append, List.flatMap_singleton,
    List.count_append]
  omega

@[simp] theorem due_log (s : File) (call : Call) (c : Nat) :
    (s.log call).due c = s.due c + call.answeredOpen.toList.count c := by
  have hcall : List.filterMap Call.answeredOpen [call] = call.answeredOpen.toList := by
    cases call <;> rfl
  simp only [due, answered, waiting, opening, log, List.filterMap_append, List.count_append, hcall]
  omega

theorem due_runCloseCallback (s : File) (callback : CloseCallback) (error : Error) (c : Nat) :
    (s.runCloseCallback callback error).1.due c = s.due c + callback.opens.count c := by
  refine CloseCallback.run_cases (P := fun callback t => t.due c = s.due c + callback.opens.count c)
    closeReport s error ?_ ?_ ?_ ?_ callback
  · intro callback hnone
    simp [hnone]
  · simp [closeReport, Call.answeredOpen, CloseCallback.opens]
  · simp [closeReport, Call.answeredOpen, CloseCallback.opens]
  · simp [closeReport, Job.opens, CloseCallback.opens]

theorem CloseCallback.opens_of_isNull (h : callback.isNull = true) : callback.opens = [] := by
  rcases callback with (_ | _) | _ <;> first | rfl | cases h

theorem due_close (s : File) (callback : CloseCallback) (refusal : Option Failure) (c : Nat) :
    (s.close callback refusal).due c = s.due c + callback.opens.count c := by
  unfold close
  split
  · split
    next hnull => simp [CloseCallback.opens_of_isNull hnull]
    next => simp [Job.opens]
  · split
    · exact due_runCloseCallback ..
    · cases refusal with
      | none =>
          simp only [due, answered, waiting, opening, List.flatMap_append, List.flatMap_singleton,
            List.count_append]
          omega
      | some error =>
          dsimp only
          split
          next hnull =>
            rw [CloseCallback.opens_of_isNull hnull]
            rfl
          next =>
            rw [due_schedule]
            rfl

theorem due_afterClose (s : File) (c : Nat) : s.afterClose.due c = s.due c := by
  unfold afterClose finishClose
  split
  · split
    · rfl
    · simp only [due, answered, waiting, opening]
      cases s.openRequests <;> rfl
  · rfl

theorem due_reportClose (s : File) (callback : CloseCallback) (error : Error) (c : Nat) :
    (s.reportClose callback error).due c = s.due c + callback.opens.count c := by
  rw [← due_runCloseCallback s callback error]
  unfold reportClose
  split
  next heq =>
    rw [heq]
    rfl
  next heq =>
    rw [heq]
    exact due_afterClose ..

theorem due_openFile (h : Orderly s) (callback : Option Nat) (refusal : Option Failure) (c : Nat) :
    (s.openFile callback refusal).due c = s.due c + callback.toList.count c := by
  refine openFile_cases (P := fun t => t.due c = s.due c + callback.toList.count c) s callback
    refusal (fun _ => due_close ..) (fun _ => due_schedule ..) fun hstate => ?_
  have hopen : s.openRequests = [] :=
    h.no_openRequest (by rcases hstate with hs | hs <;> simp [hs])
  simp only [due, answered, waiting, opening, requestOpen, hopen, List.nil_append,
    List.count_append, List.count_nil]
  omega

/-- The callback of the open request is called, if there is one. -/
theorem due_onOpen (h : s.openRequests = [request]) (error : Error) (c : Nat) :
    ({ s with openRequests := s.openRequests.erase request }.onOpen error).due c = s.due c := by
  have herase : s.openRequests.erase request = [] := by simp [h]
  have hdue : s.due c =
      { s with openRequests := [] }.due c + s.openCallback.toList.count c := by
    simp only [due, answered, waiting, opening, h, List.append_nil, List.count_append]
    omega
  rw [hdue, herase]
  unfold onOpen
  split
  · split
    next hnull =>
      rw [show s.openCallback = none from hnull]
      rfl
    next callback hcallback =>
      rw [show s.openCallback = some callback from hcallback]
      exact due_log ..
  · dsimp only
    split
    next hnull =>
      rw [hnull]
      rfl
    next callback hcallback =>
      rw [hcallback]
      exact due_log
        { s with openRequests := [], fileHandle := some (s.opens + 1), opens := s.opens + 1 } _ c

theorem due_runJob (h : Orderly s) (refusal : Option Failure) (job : Job) (c : Nat) :
    (s.runJob refusal job).due c = s.due c + job.opens.count c := by
  cases job with
  | openFile callback => exact due_openFile h callback refusal c
  | closeNotOpen callback =>
      have hcall := due_runCloseCallback s callback (.ofCode .fileNotOpen) c
      dsimp only [runJob]
      split
      next heq => rwa [heq] at hcall
      next heq => rwa [heq] at hcall
  | closeRefused callback error => exact due_reportClose ..
  | blockRefused request error =>
      dsimp only [runJob]
      split
      · rfl
      · exact due_log ..

/-! ## Calls of `open` and `close` -/

def Frame.opensOrCloses : Frame → Bool
  | .last | .opened | .openFailed | .closed => true
  | .delivered .. | .ended _ | .refused _ => false

structure OpensOnly (s t : File) : Prop where
  passed : t.passed = s.passed
  reads : t.reads = s.reads
  frame : ∀ frame ∈ t.running, s.running = some frame ∨ frame.opensOrCloses = true

namespace OpensOnly

variable {t : File}

theorem same (passed : t.passed = s.passed) (reads : t.reads = s.reads)
    (running : t.running = s.running) : OpensOnly s t :=
  ⟨passed, reads, fun _ hr => .inl (running ▸ hr)⟩

theorem calls (passed : t.passed = s.passed) (reads : t.reads = s.reads) {frame : Frame}
    (running : t.running = some frame) (hframe : frame.opensOrCloses = true) : OpensOnly s t := by
  refine ⟨passed, reads, fun other hr => .inr ?_⟩
  cases running.symm.trans hr
  exact hframe

theorem trans {s t u : File} (h : OpensOnly s t) (h' : OpensOnly t u) : OpensOnly s u where
  passed := h'.passed.trans h.passed
  reads := h'.reads.trans h.reads
  frame := by
    intro frame hr
    rcases h'.frame frame hr with hsame | hplain
    · exact h.frame frame hsame
    · exact .inr hplain

section

variable (s : File)

theorem runCloseCallback (callback : CloseCallback) (error : Error) :
    OpensOnly s (s.runCloseCallback callback error).1 := by
  obtain ⟨calls, scheduled, heq⟩ := runCloseCallback_eq s callback error
  rw [heq]
  exact same rfl rfl rfl

theorem close (callback : CloseCallback) (refusal : Option Failure) :
    OpensOnly s (s.close callback refusal) := by
  unfold File.close
  split
  · split <;> exact same rfl rfl rfl
  · split
    · exact runCloseCallback ..
    · split
      · exact same rfl rfl rfl
      · dsimp only
        split <;> exact same rfl rfl rfl

theorem openFile (callback : Option Nat) (refusal : Option Failure) :
    OpensOnly s (s.openFile callback refusal) :=
  openFile_cases s callback refusal (fun _ => close ..) (fun _ => same rfl rfl rfl)
    fun _ => same rfl rfl rfl

theorem afterClose : OpensOnly s s.afterClose := by
  unfold File.afterClose finishClose
  split
  · split <;> exact same rfl rfl rfl
  · exact same rfl rfl rfl

theorem reportClose (callback : CloseCallback) (error : Error) :
    OpensOnly s (s.reportClose callback error) := by
  have hcall := runCloseCallback s callback error
  unfold File.reportClose
  split
  next heq =>
    rw [heq] at hcall
    exact calls hcall.passed hcall.reads rfl rfl
  next heq =>
    rw [heq] at hcall
    exact hcall.trans (afterClose _)

theorem onOpen (error : Error) : OpensOnly s (s.onOpen error) := by
  unfold File.onOpen
  split
  · split
    · exact same rfl rfl rfl
    · exact calls rfl rfl rfl rfl
  · dsimp only
    split
    · exact same rfl rfl rfl
    · exact calls rfl rfl rfl rfl

theorem runJob (refusal : Option Failure) (job : Job) : OpensOnly s (s.runJob refusal job) := by
  cases job with
  | openFile callback => exact openFile ..
  | closeNotOpen callback =>
      have hcall := runCloseCallback s callback (.ofCode .fileNotOpen)
      dsimp only [File.runJob]
      split
      next heq =>
        rw [heq] at hcall
        exact calls hcall.passed hcall.reads rfl rfl
      next heq => rwa [heq] at hcall
  | closeRefused callback error => exact reportClose ..
  | blockRefused request error =>
      dsimp only [File.runJob]
      split
      · exact same rfl rfl rfl
      · exact calls rfl rfl rfl rfl

end

end OpensOnly

def UserCall.opensOrCloses : UserCall → Bool
  | .openFile _ | .close _ => true
  | .read .. | .readBlock .. | .keep | .release _ => false

def Event.opensOrCloses : Event → Bool
  | .call userCall _ => userCall.opensOrCloses
  | .leave _ | .loop .. => true

def openStep : File → Event → Option File := restrict (fun _ e => e.opensOrCloses = true) step

/-- Every callback passed to `open` was called as often as it was passed, or waits. -/
structure Accounted (s : File) : Prop where
  orderly : Orderly s
  due : ∀ c, s.due c = s.passed.count c
  reads : s.reads = []
  frame : ∀ frame ∈ s.running, frame.opensOrCloses = true

namespace Accounted

variable {s' : File}

theorem initial : Accounted {} := ⟨.initial, fun _ => rfl, rfl, fun _ h => by cases h⟩

/-- An operation that calls or drops no callback unseen. -/
theorem of_opensOnly {s t : File} (h : Accounted s) (honlyOpens : OpensOnly s t)
    (horderly : Orderly t) (hdue : ∀ c, t.due c = s.due c) : Accounted t where
  orderly := horderly
  due c := by rw [hdue, h.due, honlyOpens.passed]
  reads := honlyOpens.reads.trans h.reads
  frame := fun frame hr => (honlyOpens.frame frame hr).elim (h.frame frame) id

theorem openFile {s : File} (h : Accounted s) (callback : Option Nat) (refusal : Option Failure) :
    Accounted
      ({ s with passed := s.passed ++ callback.toList }.openFile callback refusal) := by
  have horderly : Orderly { s with passed := s.passed ++ callback.toList } :=
    h.orderly.of_lifecycle rfl fun _ hr _ => hr
  have honlyOpens :=
    OpensOnly.openFile { s with passed := s.passed ++ callback.toList } callback refusal
  refine ⟨horderly.openFile callback refusal, fun c => ?_, honlyOpens.reads.trans h.reads, ?_⟩
  · rw [due_openFile horderly, honlyOpens.passed, List.count_append, ← h.due c]
    rfl
  · exact fun frame hr => (honlyOpens.frame frame hr).elim (h.frame frame) id

theorem resume {s : File} (h : Accounted s) {frame : Frame} (hrun : s.running = some frame)
    (refusal : Option Failure) :
    Accounted ({ s with running := none }.resume refusal frame) := by
  have horderly := h.orderly.resume hrun refusal
  have hnone : OpensOnly s { s with running := none } := ⟨rfl, rfl, fun _ hr => by cases hr⟩
  cases frame with
  | last => exact h.of_opensOnly hnone horderly fun _ => rfl
  | opened => exact h.of_opensOnly (hnone.trans (.same rfl rfl rfl)) horderly fun _ => rfl
  | openFailed => exact h.of_opensOnly (hnone.trans (.same rfl rfl rfl)) horderly fun _ => rfl
  | closed =>
      exact h.of_opensOnly (hnone.trans (.afterClose _)) horderly fun c => due_afterClose _ c
  | delivered i size => cases h.frame _ hrun
  | ended i => cases h.frame _ hrun
  | refused i => cases h.frame _ hrun

theorem turnover (h : Accounted s) (hrun : s.running = none) {refusal : Option Failure}
    {turn : Turnover} (hturn : s.turnover refusal turn = some s') : Accounted s' := by
  have horderly := h.orderly.turnover hrun hturn
  cases turn with
  | scheduled =>
      obtain ⟨job, rest, hjobs, rfl⟩ := turnover_scheduled_eq_some.mp hturn
      have hrest : Orderly { s with scheduled := rest } :=
        h.orderly.of_lifecycle rfl fun _ hr _ => hr
      have honlyOpens : OpensOnly s { s with scheduled := rest } := .same rfl rfl rfl
      refine h.of_opensOnly (honlyOpens.trans (.runJob ..)) horderly fun c => ?_
      rw [due_runJob hrest]
      simp only [File.due, answered, waiting, opening, hjobs, List.flatMap_cons, List.count_append]
      omega
  | opened id error =>
      obtain ⟨request, hfind, heq⟩ := turnover_opened_eq_some.mp hturn
      obtain ⟨honly, hdata, -⟩ := h.orderly.opening request (List.mem_of_find?_eq_some hfind)
      rw [if_pos hdata] at heq
      subst heq
      have honlyOpens : OpensOnly s { s with openRequests := s.openRequests.erase request } :=
        .same rfl rfl rfl
      exact h.of_opensOnly (honlyOpens.trans (.onOpen ..)) horderly
        fun c => due_onOpen honly error c
  | closed callback error =>
      obtain ⟨hmem, rfl⟩ := turnover_closed_eq_some.mp hturn
      obtain ⟨honly, -⟩ := h.orderly.closing callback hmem
      have honlyOpens : OpensOnly s
          { s with
            closeRequests := s.closeRequests.erase callback
            fileHandle := none
            state := .closed } := .same rfl rfl rfl
      refine h.of_opensOnly (honlyOpens.trans (.reportClose ..)) horderly fun c => ?_
      rw [onClose, due_reportClose]
      simp only [File.due, answered, waiting, opening, honly, List.erase_cons_head,
        List.flatMap_nil, List.flatMap_singleton, List.count_append, List.append_nil]
      omega
  | readDone id outcome =>
      obtain ⟨request, hfind, -⟩ := turnover_readDone_eq_some.mp hturn
      have hmem := mem_of_readRequest hfind
      rw [h.reads] at hmem
      cases hmem

/-- A step of a file that is only opened and closed keeps the account. -/
theorem step {e : Event} (h : Accounted s) (hstep : openStep s e = some s') : Accounted s' := by
  obtain ⟨hdomain, hstep⟩ := restrict_eq_some.mp hstep
  cases e with
  | call userCall refusal =>
      rw [step_call] at hstep
      cases userCall with
      | openFile callback =>
          cases hstep
          exact h.openFile ..
      | close callback =>
          cases hstep
          exact h.of_opensOnly (.close ..) (h.orderly.close ..)
            fun c => due_close s (.user callback) _ c
      | read readCallback endReadCallback => cases hdomain
      | readBlock offset count readCallback => cases hdomain
      | keep => cases hdomain
      | release index => cases hdomain
  | leave refusal =>
      obtain ⟨frame, hrun, rfl⟩ := step_leave_eq_some.mp hstep
      exact h.resume hrun refusal
  | loop turn refusal =>
      obtain ⟨hrun, hturn⟩ := step_loop_eq_some.mp hstep
      exact h.turnover hrun hturn

end Accounted

/-! ## Cycles of the loop -/

variable {job : Job}

def Quiet (s : File) : Prop :=
  s.scheduled = [] ∧ s.openRequests = [] ∧ s.closeRequests = [] ∧ s.reads = []

instance (s : File) : Decidable s.Quiet := by
  unfold Quiet
  infer_instance

/-- The file waits for a request that libuv does not have. -/
def Halted (s : File) : Prop :=
  s.state = .opening ∧ s.openRequests = [] ∨ s.state = .closing ∧ s.closeRequests = []

def Stuck (s : File) : Prop := s.Halted ∧ ∃ callback, Job.openFile callback ∈ s.scheduled

def returned (s : File) : File := attempt openStep s (.leave none)

def turn (refusal : Option Failure) (s : File) : File :=
  (attempt openStep s (.loop .scheduled refusal)).returned

def complete (s : File) (error : Error) : File :=
  match s.openRequests, s.closeRequests with
  | request :: _, _ => (attempt openStep s (.loop (.opened request.id error) none)).returned
  | [], callback :: _ => (attempt openStep s (.loop (.closed callback error) none)).returned
  | [], [] => s

/-- The loop without calls of the user. In a cycle libuv may refuse the requests of the callbacks
that run. -/
def loop : LoopTurns File (Option Failure) Error where
  jobs s := s.scheduled.length
  turn := turn
  complete error s := s.complete error

def State.rank : State → Nat
  | .initial | .closed => 0
  | .closing => 2
  | .opening | .opened => 3

def Job.rank : Job → Nat
  | .openFile _ => 5
  | .closeNotOpen _ | .closeRefused .. | .blockRefused .. => 1

def rank (s : File) : Nat :=
  (s.scheduled.map Job.rank).sum + (s.closeRequests.map CloseCallback.rank).sum +
    s.openRequests.length + s.state.rank

@[simp] theorem rank_schedule (s : File) (job : Job) :
    (s.schedule job).rank = s.rank + job.rank := by
  simp only [rank, schedule, List.map_append, List.map_singleton, List.sum_append,
    List.sum_singleton]
  omega

/-- The callback of an open that waits for a close is scheduled again at most. -/
theorem rank_runCloseCallback_le (s : File) (callback : CloseCallback) (error : Error) :
    (s.runCloseCallback callback error).1.rank ≤ s.rank + callback.rank := by
  refine CloseCallback.run_cases (P := fun callback t => t.rank ≤ s.rank + callback.rank)
    closeReport s error ?_ ?_ ?_ ?_ callback
  · exact fun _ _ => Nat.le_add_right ..
  · exact fun _ => Nat.le_add_right ..
  · exact fun _ => Nat.le_add_right ..
  · exact fun _ _ => (rank_schedule ..).le

theorem rank_runCloseCallback_of_error (s : File) (callback : CloseCallback) (error : Error)
    (h : error.isError = true) : (s.runCloseCallback callback error).1.rank = s.rank := by
  refine CloseCallback.run_cases (P := fun _ t => t.rank = s.rank) closeReport s error ?_ ?_ ?_ ?_
    callback
  · exact fun _ _ => rfl
  · exact fun _ => rfl
  · exact fun _ => rfl
  · intro hok
    cases h.symm.trans hok

theorem rank_afterClose (s : File) : s.afterClose.rank = s.rank := by
  unfold afterClose finishClose
  split
  · split
    · rfl
    · simp only [rank, List.length_map]
  · rfl

theorem rank_reportClose (s : File) (callback : CloseCallback) (error : Error) :
    (s.reportClose callback error).rank = (s.runCloseCallback callback error).1.rank := by
  unfold reportClose
  split
  next heq =>
    rw [heq]
    rfl
  next heq =>
    rw [heq]
    exact rank_afterClose _

/-- An open that does not have to wait brings the object on its way. -/
theorem rank_openFile_lt (h : Orderly s) (hopening : s.state ≠ .opening)
    (hclosing : s.state ≠ .closing) (callback : Option Nat) (refusal : Option Failure) :
    (s.openFile callback refusal).rank < s.rank + 5 := by
  refine openFile_cases (P := fun t => t.rank < s.rank + 5) s callback refusal (fun hstate => ?_)
    (fun hstate => (hstate.elim hopening hclosing).elim) fun hstate => ?_
  · obtain ⟨descriptor, hhandle⟩ := Option.ne_none_iff_exists'.mp (h.opened hstate)
    cases refusal <;>
      simp [close, isOpen, hhandle, hstate, CloseCallback.isNull, rank, schedule, Job.rank,
        CloseCallback.rank, State.rank] <;> omega
  · rcases hstate with hstate | hstate <;> simp [requestOpen, rank, hstate, State.rank] <;> omega

theorem rank_openFile_le (h : Orderly s) (callback : Option Nat) (refusal : Option Failure) :
    (s.openFile callback refusal).rank ≤ s.rank + 5 := by
  by_cases hwait : s.state = .opening ∨ s.state = .closing
  · refine openFile_cases (P := fun t => t.rank ≤ s.rank + 5) s callback refusal ?_
      (fun _ => (rank_schedule ..).le) ?_
    · intro hstate
      rcases hwait with hs | hs <;> cases hs.symm.trans hstate
    · intro hstate
      rcases hwait with hs | hs <;> rcases hstate with hs' | hs' <;> cases hs.symm.trans hs'
  · rw [not_or] at hwait
    exact (rank_openFile_lt h hwait.1 hwait.2 callback refusal).le

/-- A callback that is not an open is done when it has run. -/
theorem rank_runJob_other (hjob : job.rank = 1) (s : File) (refusal : Option Failure) :
    (s.runJob refusal job).rank = s.rank := by
  cases job with
  | openFile callback => cases hjob
  | closeNotOpen callback =>
      have hcall := rank_runCloseCallback_of_error s callback (.ofCode .fileNotOpen) rfl
      dsimp only [runJob]
      split
      next heq => rwa [heq] at hcall
      next heq => rwa [heq] at hcall
  | closeRefused callback error =>
      exact (rank_reportClose ..).trans (rank_runCloseCallback_of_error s callback error error.2)
  | blockRefused request error =>
      dsimp only [runJob]
      split <;> rfl

theorem rank_runJob_lt (h : Orderly s)
    (hready : ∀ callback, job = .openFile callback → s.state ≠ .opening ∧ s.state ≠ .closing)
    (refusal : Option Failure) : (s.runJob refusal job).rank < s.rank + job.rank := by
  by_cases hjob : job.rank = 1
  · rw [rank_runJob_other hjob, hjob]
    exact Nat.lt_succ_self _
  · cases job with
    | openFile callback =>
        obtain ⟨hopening, hclosing⟩ := hready callback rfl
        exact rank_openFile_lt h hopening hclosing callback refusal
    | _ => exact absurd rfl hjob

theorem rank_runJob_le (h : Orderly s) (refusal : Option Failure) (job : Job) :
    (s.runJob refusal job).rank ≤ s.rank + job.rank := by
  by_cases hjob : job.rank = 1
  · rw [rank_runJob_other hjob]
    exact Nat.le_add_right ..
  · cases job with
    | openFile callback => exact rank_openFile_le h callback refusal
    | _ => exact absurd rfl hjob

/-! ### Requests in flight -/

def Pending (s : File) : Prop := s.openRequests ≠ [] ∨ s.closeRequests ≠ []

theorem Pending.waits (hpending : s.Pending) (h : Orderly s) :
    s.state = .opening ∨ s.state = .closing := by
  rcases hpending with hne | hne
  · obtain ⟨request, hmem⟩ := List.exists_mem_of_ne_nil _ hne
    exact .inl (h.opening request hmem).2.2.1
  · obtain ⟨callback, hmem⟩ := List.exists_mem_of_ne_nil _ hne
    exact .inr (h.closing callback hmem).2.1

theorem Pending.afterClose (h : s.Pending) : s.afterClose.Pending := by
  unfold File.afterClose finishClose
  split
  · split
    · exact h
    · exact h.imp_left fun hne => by simpa using hne
  · exact h

theorem Pending.runCloseCallback (h : s.Pending) (callback : CloseCallback) (error : Error) :
    (s.runCloseCallback callback error).1.Pending := by
  obtain ⟨calls, scheduled, heq⟩ := runCloseCallback_eq s callback error
  rw [heq]
  exact h

/-- The callbacks on the loop leave a request in flight alone. -/
theorem Pending.runJob (hpending : s.Pending) (h : Orderly s) (refusal : Option Failure)
    (job : Job) : (s.runJob refusal job).Pending := by
  cases job with
  | openFile callback =>
      have hwaits := hpending.waits h
      refine openFile_cases s callback refusal ?_ (fun _ => hpending) ?_
      · intro hstate
        rcases hwaits with hs | hs <;> cases hs.symm.trans hstate
      · intro hstate
        rcases hwaits with hs | hs <;> rcases hstate with hs' | hs' <;> cases hs.symm.trans hs'
  | closeNotOpen callback =>
      have hcall := hpending.runCloseCallback callback (.ofCode .fileNotOpen)
      dsimp only [File.runJob]
      split
      next heq => rwa [heq] at hcall
      next heq => rwa [heq] at hcall
  | closeRefused callback error =>
      have hcall := hpending.runCloseCallback callback error
      dsimp only [File.runJob, reportClose]
      split
      next heq => rwa [heq] at hcall
      next heq =>
        rw [heq] at hcall
        exact hcall.afterClose
  | blockRefused request error =>
      dsimp only [File.runJob]
      split <;> exact hpending

/-! ### Cycles -/

variable {frame : Frame} {rest : List Job}

def Idle (s : File) : Prop := Reaches openStep {} s ∧ s.running = none

theorem accounted_of_reaches (h : Reaches openStep {} s) : Accounted s := by
  obtain ⟨run, hrun⟩ := h
  exact exec_invariant (fun _ _ _ hs hstep => hs.step hstep) .initial hrun

theorem Idle.accounted (h : Idle s) : Accounted s := accounted_of_reaches h.1

theorem returned_of_none (h : s.running = none) : s.returned = s :=
  attempt_of_none (by simp [openStep, restrict, step, h])

theorem returned_of_some (h : s.running = some frame) :
    s.returned = { s with running := none }.resume none frame :=
  attempt_of_some (restrict_eq_some.mpr ⟨rfl, step_leave_eq_some.mpr ⟨frame, h, rfl⟩⟩)

/-- After the user's callback the function ends, and has no more to do than before. -/
theorem returned_spec (h : Reaches openStep {} s) :
    Idle s.returned ∧ s.returned.rank ≤ s.rank ∧ (s.Pending → s.returned.Pending) := by
  have hreaches : Reaches openStep {} s.returned := h.attempt _
  cases hrun : s.running with
  | none =>
      rw [returned_of_none hrun] at hreaches ⊢
      exact ⟨⟨hreaches, hrun⟩, le_rfl, id⟩
  | some frame =>
      have hframe := (accounted_of_reaches h).frame frame hrun
      rw [returned_of_some hrun] at hreaches ⊢
      cases frame with
      | last => exact ⟨⟨hreaches, rfl⟩, le_rfl, id⟩
      | opened => exact ⟨⟨hreaches, rfl⟩, le_rfl, id⟩
      | openFailed =>
          exact ⟨⟨hreaches, rfl⟩, Nat.add_le_add_left (Nat.zero_le _) _, id⟩
      | closed =>
          refine ⟨⟨hreaches, ?_⟩, (rank_afterClose _).le, fun hpending => ?_⟩
          · dsimp only [resume]
            unfold afterClose finishClose
            split
            · split <;> rfl
            · rfl
          · exact Pending.afterClose (s := { s with running := none }) hpending
      | delivered i size => cases hframe
      | ended i => cases hframe
      | refused i => cases hframe

theorem turn_of_nil (hjobs : s.scheduled = []) (refusal : Option Failure) :
    s.turn refusal = s.returned := by
  rw [turn, attempt_of_none (by simp [openStep, restrict, step, turnover, hjobs])]

/-- The loop runs a callback, which ends with a state that is reached, too. -/
theorem turn_of_cons (h : Idle s) (hjobs : s.scheduled = job :: rest) (refusal : Option Failure) :
    s.turn refusal = ({ s with scheduled := rest }.runJob refusal job).returned ∧
      Reaches openStep {} ({ s with scheduled := rest }.runJob refusal job) := by
  have hattempt : attempt openStep s (.loop .scheduled refusal) =
      { s with scheduled := rest }.runJob refusal job :=
    attempt_of_some (restrict_eq_some.mpr ⟨rfl,
      step_loop_eq_some.mpr ⟨h.2, turnover_scheduled_eq_some.mpr ⟨job, rest, hjobs, rfl⟩⟩⟩)
  have hreaches := h.1.attempt (.loop .scheduled refusal)
  rw [hattempt] at hreaches
  exact ⟨by rw [turn, hattempt], hreaches⟩

theorem rank_of_cons (hjobs : s.scheduled = job :: rest) :
    s.rank = { s with scheduled := rest }.rank + job.rank := by
  simp only [rank, hjobs, List.map_cons, List.sum_cons]
  omega

/-- A callback of the loop makes no more work than it was. -/
theorem turn_spec (h : Idle s) (refusal : Option Failure) :
    Idle (s.turn refusal) ∧ (s.turn refusal).rank ≤ s.rank ∧
      (s.Pending → (s.turn refusal).Pending) := by
  cases hjobs : s.scheduled with
  | nil =>
      rw [turn_of_nil hjobs]
      exact returned_spec h.1
  | cons job rest =>
      obtain ⟨heq, hreaches⟩ := turn_of_cons h hjobs refusal
      obtain ⟨hidle, hrank, hkeep⟩ := returned_spec hreaches
      have hrest : Orderly { s with scheduled := rest } :=
        h.accounted.orderly.of_lifecycle rfl fun _ hr _ => hr
      rw [heq, rank_of_cons hjobs]
      refine ⟨hidle, hrank.trans (rank_runJob_le hrest refusal job), fun hpending => hkeep ?_⟩
      exact Pending.runJob (s := { s with scheduled := rest }) hpending hrest refusal job

/-- Where an open does not have to wait, there is less to do after each callback. -/
theorem turn_rank_lt (h : Idle s) (hcons : s.scheduled = job :: rest)
    (hready : ∀ callback, job = .openFile callback → s.state ≠ .opening ∧ s.state ≠ .closing)
    (refusal : Option Failure) : (s.turn refusal).rank < s.rank := by
  obtain ⟨heq, hreaches⟩ := turn_of_cons h hcons refusal
  have hrest : Orderly { s with scheduled := rest } :=
    h.accounted.orderly.of_lifecycle rfl fun _ hr _ => hr
  rw [heq, rank_of_cons hcons]
  exact (returned_spec hreaches).2.1.trans_lt (rank_runJob_lt hrest hready refusal)

theorem rank_onOpen (hstate : s.state = .opening) (error : Error) :
    (s.onOpen error).rank ≤ s.rank := by
  unfold onOpen
  split
  · split <;> simp [afterOpenFailed, leaveOpen, rank, log, State.rank]
  · dsimp only
    split <;> simp [leaveOpen, rank, log, hstate, State.rank]

theorem rank_onClose (hstate : s.state = .closing) (callback : CloseCallback) (error : Error) :
    (s.onClose callback error).rank < s.rank + callback.rank := by
  have hcall := rank_runCloseCallback_le { s with fileHandle := none, state := .closed } callback
    error
  rw [onClose, rank_reportClose]
  refine hcall.trans_lt (Nat.add_lt_add_right ?_ _)
  simp [rank, hstate, State.rank]

theorem attempt_opened (h : Idle s) (hmem : request ∈ s.openRequests) (error : Error) :
    attempt openStep s (.loop (.opened request.id error) none) =
      { s with openRequests := s.openRequests.erase request }.onOpen error := by
  obtain ⟨honly, hdata, -⟩ := h.accounted.orderly.opening request hmem
  refine attempt_of_some (restrict_eq_some.mpr ⟨rfl, step_loop_eq_some.mpr ⟨h.2, ?_⟩⟩)
  exact turnover_opened_eq_some.mpr ⟨request, by simp [honly], if_pos hdata⟩

theorem attempt_closed (h : Idle s) (hmem : callback ∈ s.closeRequests) (error : Error) :
    attempt openStep s (.loop (.closed callback error) none) =
      { s with closeRequests := s.closeRequests.erase callback }.onClose callback error :=
  attempt_of_some (restrict_eq_some.mpr ⟨rfl,
    step_loop_eq_some.mpr ⟨h.2, turnover_closed_eq_some.mpr ⟨hmem, rfl⟩⟩⟩)

theorem complete_spec (h : Idle s) (error : Error) :
    Idle (s.complete error) ∧ (s.complete error).rank ≤ s.rank ∧
      (s.Pending → (s.complete error).rank < s.rank) := by
  unfold complete
  split
  next request _ hcons =>
    have hmem : request ∈ s.openRequests := by simp [hcons]
    obtain ⟨honly, -, hstate, -⟩ := h.accounted.orderly.opening request hmem
    obtain ⟨hidle, hrank, -⟩ := returned_spec (h.1.attempt (.loop (.opened request.id error) none))
    have hless : (attempt openStep s (.loop (.opened request.id error) none)).rank < s.rank := by
      rw [attempt_opened h hmem]
      refine LE.le.trans_lt (rank_onOpen ?_ error) ?_
      · exact hstate
      · simp [rank, honly]
    exact ⟨hidle, (hrank.trans_lt hless).le, fun _ => hrank.trans_lt hless⟩
  next callback _ hnil hcons =>
    have hmem : callback ∈ s.closeRequests := by simp [hcons]
    obtain ⟨honly, hstate, -⟩ := h.accounted.orderly.closing callback hmem
    obtain ⟨hidle, hrank, -⟩ := returned_spec (h.1.attempt (.loop (.closed callback error) none))
    have hless : (attempt openStep s (.loop (.closed callback error) none)).rank < s.rank := by
      rw [attempt_closed h hmem]
      refine LT.lt.trans_le (rank_onClose ?_ callback error) ?_
      · exact hstate
      · simp only [rank, honly, List.erase_cons_head, List.map_nil, List.map_singleton,
          List.sum_nil, List.sum_singleton]
        omega
    exact ⟨hidle, (hrank.trans_lt hless).le, fun _ => hrank.trans_lt hless⟩
  next hopen hclose => exact ⟨h, le_rfl, fun hpending => (hpending.elim (· hopen) (· hclose)).elim⟩

/-- A quiet file, or one in which opens wait for ever, is where the loop leads to. -/
theorem loop_ranked : loop.Ranked Idle Pending (fun s => s.Quiet ∨ s.Stuck) rank where
  turn refusal _ h := turn_spec h refusal
  complete error _ h := complete_spec h error
  ready := by
    intro refusal s h hpending hdone
    have hnone : s.openRequests = [] ∧ s.closeRequests = [] := by
      simpa [Pending, not_or] using hpending
    have hjobs : s.scheduled ≠ [] := fun hnil =>
      hdone (.inl ⟨hnil, hnone.1, hnone.2, h.accounted.reads⟩)
    obtain ⟨job, rest, hcons⟩ := List.exists_cons_of_ne_nil hjobs
    refine ⟨mt List.length_eq_zero_iff.mp hjobs, turn_rank_lt h hcons ?_ refusal⟩
    rintro callback rfl
    have hopen : ∃ callback, Job.openFile callback ∈ s.scheduled := ⟨callback, by simp [hcons]⟩
    exact ⟨fun hs => hdone (.inr ⟨.inl ⟨hs, hnone.1⟩, hopen⟩),
      fun hs => hdone (.inr ⟨.inr ⟨hs, hnone.2⟩, hopen⟩)⟩

/-! ### Waiting for ever -/

structure Stays (s t : File) (job : Job) : Prop where
  state : t.state = s.state
  openRequests : t.openRequests = s.openRequests
  closeRequests : t.closeRequests = s.closeRequests
  jobs : ∀ other ∈ s.scheduled, other ∈ t.scheduled
  again : ∀ callback, job = .openFile callback → job ∈ t.scheduled
  frame : ∀ frame ∈ t.running, frame = .last ∨ frame = .closed

theorem Halted.not_closed (h : s.Halted) : s.state ≠ .closed := by
  rcases h with ⟨hs, -⟩ | ⟨hs, -⟩ <;> simp [hs]

theorem Halted.afterClose (h : s.Halted) : s.afterClose = s :=
  if_neg h.not_closed

theorem Halted.openFile (h : s.Halted) (callback : Option Nat) (refusal : Option Failure) :
    s.openFile callback refusal = s.schedule (.openFile callback) := by
  rcases h with ⟨hs, -⟩ | ⟨hs, -⟩ <;>
    simp [File.openFile, continueOpen, FsObject.isOpened, FsObject.isInitialOrClosed,
      FsObject.scheduleOpen, hs]

theorem Stays.runCloseCallback (hrun : s.running = none) (job : Job) (hjob : job.rank = 1)
    (callback : CloseCallback) (error : Error) :
    Stays s (s.runCloseCallback callback error).1 job := by
  have hother : ∀ callback, job = .openFile callback → False := by
    rintro callback rfl
    cases hjob
  have hlog (call : Call) : Stays s (s.log call) job :=
    ⟨rfl, rfl, rfl, fun _ h => h, fun c hc => (hother c hc).elim, by simp [log, hrun]⟩
  refine CloseCallback.run_cases (P := fun _ t => Stays s t job) closeReport s error ?_ ?_ ?_ ?_
    callback
  · intro _ _
    exact ⟨rfl, rfl, rfl, fun _ h => h, fun c hc => (hother c hc).elim, by simp [hrun]⟩
  · exact fun _ => hlog _
  · exact fun _ => hlog _
  · intro _ _
    exact ⟨rfl, rfl, rfl, fun _ h => List.mem_append_left _ h,
      fun c hc => (hother c hc).elim, by simp [closeReport, schedule, hrun]⟩

theorem Stays.call {s t : File} (h : Stays s t job) (hframe : frame = .last ∨ frame = .closed) :
    Stays s { t with running := some frame } job :=
  { h with
    frame := by
      rintro other hr
      cases hr
      exact hframe }

theorem Halted.runJob (h : s.Halted) (hrun : s.running = none) (refusal : Option Failure)
    (job : Job) : Stays s (s.runJob refusal job) job := by
  cases job with
  | openFile callback =>
      rw [File.runJob, h.openFile]
      exact ⟨rfl, rfl, rfl, fun _ h => List.mem_append_left _ h,
        fun _ _ => by simp [schedule], by simp [schedule, hrun]⟩
  | closeNotOpen callback =>
      have hcall := Stays.runCloseCallback hrun (.closeNotOpen callback) rfl callback
        (.ofCode .fileNotOpen)
      dsimp only [File.runJob]
      split
      next heq =>
        rw [heq] at hcall
        exact hcall.call (.inl rfl)
      next heq => rwa [heq] at hcall
  | closeRefused callback error =>
      have hcall := Stays.runCloseCallback hrun (.closeRefused callback error) rfl callback error
      dsimp only [File.runJob, reportClose]
      split
      next heq =>
        rw [heq] at hcall
        exact hcall.call (.inr rfl)
      next t heq =>
        rw [heq] at hcall
        have hhalted : t.Halted := by
          rw [Halted, hcall.state, hcall.openRequests, hcall.closeRequests]
          exact h
        rwa [hhalted.afterClose]
  | blockRefused request error =>
      have hsame : Stays s s (.blockRefused request error) :=
        ⟨rfl, rfl, rfl, fun _ h => h, by simp, by simp [hrun]⟩
      dsimp only [File.runJob]
      split
      · exact hsame
      · exact ⟨rfl, rfl, rfl, fun _ h => h, by simp, by simp⟩

/-- The end of the callback changes nothing in a file that waits for nothing. -/
theorem Halted.returned (h : s.Halted)
    (hframe : ∀ frame ∈ s.running, frame = .last ∨ frame = .closed) :
    s.returned = { s with running := none } := by
  cases hrun : s.running with
  | none => rw [returned_of_none hrun, ← hrun]
  | some frame =>
      rw [returned_of_some hrun]
      rcases hframe frame hrun with rfl | rfl
      · rfl
      · exact Halted.afterClose (s := { s with running := none }) h

theorem Stuck.turn (h : s.Stuck) (hidle : Idle s) (refusal : Option Failure) :
    (s.turn refusal).Stuck := by
  obtain ⟨hhalted, callback, hmem⟩ := h
  cases hjobs : s.scheduled with
  | nil =>
      rw [hjobs] at hmem
      cases hmem
  | cons job rest =>
      have hstays := Halted.runJob (s := { s with scheduled := rest }) hhalted hidle.2 refusal job
      rw [(turn_of_cons hidle hjobs refusal).1]
      generalize { s with scheduled := rest }.runJob refusal job = t at hstays ⊢
      have ht : t.Halted := by
        rw [Halted, hstays.state, hstays.openRequests, hstays.closeRequests]
        exact hhalted
      rw [ht.returned hstays.frame]
      refine ⟨ht, callback, ?_⟩
      rw [hjobs] at hmem
      rcases List.mem_cons.mp hmem with rfl | hrest
      · exact hstays.again callback rfl
      · exact hstays.jobs _ hrest

theorem Stuck.not_pending (h : s.Stuck) (hidle : Idle s) : ¬ s.Pending := by
  have horderly := hidle.accounted.orderly
  rintro (hne | hne) <;> obtain ⟨hs, hnil⟩ | ⟨hs, hnil⟩ := h.1
  · exact hne hnil
  · exact hne (horderly.no_openRequest (by simp [hs]))
  · exact hne (horderly.no_closeRequest (by simp [hs]))
  · exact hne hnil

theorem complete_of_not_pending (h : ¬ s.Pending) (error : Error) : s.complete error = s := by
  rw [Pending, not_or, not_not, not_not] at h
  rw [complete, h.1, h.2]

theorem Stuck.cycle (h : s.Stuck) (hidle : Idle s) (answer : Option Failure × Option Error) :
    (loop.cycle answer s).Stuck := by
  have hturns : ∀ n, ((File.turn answer.1)^[n] s).Stuck ∧ Idle ((File.turn answer.1)^[n] s) := by
    intro n
    refine ⟨?_, (loop_ranked.turns hidle answer.1 n).1⟩
    induction n with
    | zero => exact h
    | succ n ih =>
        rw [Function.iterate_succ_apply']
        exact ih.turn (loop_ranked.turns hidle answer.1 n).1 answer.1
  obtain ⟨hstuck, hidle'⟩ := hturns s.scheduled.length
  unfold LoopTurns.cycle
  dsimp only [loop]
  split
  · exact hstuck
  · rwa [complete_of_not_pending (hstuck.not_pending hidle')]

theorem Quiet.not_pending (h : s.Quiet) : ¬ s.Pending := by
  rw [Pending, not_or, not_not, not_not]
  exact ⟨h.2.1, h.2.2.1⟩

theorem Quiet.cycle (h : s.Quiet) (answer : Option Failure × Option Error) :
    (loop.cycle answer s).Quiet := by
  unfold LoopTurns.cycle
  dsimp only [loop]
  rw [h.1]
  split
  · exact h
  · exact (complete_of_not_pending h.not_pending _).symm ▸ h

theorem idle_cycle (answer : Option Failure × Option Error) (s : File) (h : Idle s) :
    Idle (loop.cycle answer s) :=
  (loop_ranked.cycle h answer).1

theorem Stuck.cycles (hidle : Idle s) (answers : Nat → Option Failure × Option Error) {m n : Nat}
    (hle : m ≤ n) (h : (cycles loop.cycle answers s m).Stuck) :
    (cycles loop.cycle answers s n).Stuck := by
  have keep : ∀ answer t, t.Stuck ∧ Idle t →
      (loop.cycle answer t).Stuck ∧ Idle (loop.cycle answer t) := fun answer t ht =>
    ⟨ht.1.cycle ht.2 answer, idle_cycle answer t ht.2⟩
  exact (cycles_keep answers keep hle ⟨h, cycles_invariant answers idle_cycle hidle m⟩).1

theorem Stuck.not_quiet (h : s.Stuck) : ¬ s.Quiet := by
  intro hquiet
  obtain ⟨-, callback, hmem⟩ := h
  rw [hquiet.1] at hmem
  cases hmem

/-- With libuv completing requests again and again, finitely many cycles lead a file to a quiet
state exactly when it does not get stuck. -/
theorem eventually_quiet_iff (h : Idle s) {answers : Nat → Option Failure × Option Error}
    (fair : ∀ n, ∃ m, n ≤ m ∧ (answers m).2 ≠ none) :
    (∃ n, (cycles loop.cycle answers s n).Quiet) ↔
      ∀ n, ¬ (cycles loop.cycle answers s n).Stuck := by
  constructor
  · rintro ⟨n, hquiet⟩ m hstuck
    -- Both are kept, so that they would meet.
    have hlater := Stuck.cycles h answers (Nat.le_max_left m n) hstuck
    have keepQuiet : ∀ answer (t : File), t.Quiet → (loop.cycle answer t).Quiet :=
      fun answer _ ht => ht.cycle answer
    exact hlater.not_quiet (cycles_keep answers keepQuiet (Nat.le_max_right m n) hquiet)
  · intro hfree
    obtain ⟨n, hquiet | hstuck⟩ := loop_ranked.eventually fair h
    · exact ⟨n, hquiet⟩
    · exact absurd hstuck (hfree n)

def AllAnswered (s : File) : Prop := ∀ c, s.answered.count c = s.passed.count c

theorem allAnswered_of_quiet (h : Accounted s) (hquiet : s.Quiet) : s.AllAnswered := by
  obtain ⟨hjobs, hopen, hclose, -⟩ := hquiet
  intro c
  simpa [due, waiting, opening, hjobs, hopen, hclose] using h.due c

end File

end TarmIo.Fs
