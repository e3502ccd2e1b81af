import TarmIo.Foundation.Execution
import TarmIo.StatusCode

/-!
# Work items of `EventLoop.cpp`

One item of `add_work` with everything that can happen to it: the callback that
queues it, a worker that runs `on_work`, `on_after_work`, and a call of `cancel_work`
on the loop thread. A step is what one thread does without the other seeing a state in
between. What libuv decides is the order of the steps.

`on_work` takes `req->loop->data` for an `EventLoop::Impl`, but the constructor of `Impl` has set
it to the `EventLoop`. It makes use of this only when it finds the item cancelled: it then calls
`execute_on_loop_thread` on memory that holds no mutex and no queue, and there is no telling what
the program does next.
-/

namespace TarmIo.Loop

open Foundation

/-- How far the request of an item has come. Nothing follows `undefined`. -/
inductive Request where
  | unqueued
  | queued
  | started
  | undefined
  | working
  | leaving
  | returned (status : Error)
  | done
deriving DecidableEq

/-- What the loop thread is inside of. `cancel_work` may be called by the done
callback that `on_after_work` runs. -/
inductive LoopThread where
  | idle
  | cancelling
  | afterWork
  | afterWorkCancelling
deriving DecidableEq

structure Work where
  hasDoneCallback : Bool
  request : Request := .unqueued
  loop : LoopThread := .idle
  cancelled : Bool := false
  queued : Bool := false
  deleted : Bool := false
  cancelResult : Option Error := none
  doneCalls : List Error := []
  workCalls : Nat := 0
  usedAfterDelete : Bool := false
deriving DecidableEq

inductive WorkEvent where
  | runScheduled (uvQueueWork : Error)
  | cancelStore
  | cancelRequest
  | start
  | readFlag
  | callWork
  | leave
  | afterWork (status : Error)
  | delete
deriving DecidableEq

namespace Work

variable {e : WorkEvent}

/-- `add_work`: `none` is the invalid handle, returned for a null work callback. -/
def addWork (workCallback doneCallback : Bool) : Option Work :=
  if workCallback then some { hasDoneCallback := doneCallback } else none

def callWorkDoneCallback (w : Work) (error : Error) : Work :=
  { w with
    doneCalls := if w.hasDoneCallback then w.doneCalls ++ [error] else w.doneCalls
    usedAfterDelete := w.usedAfterDelete || w.deleted }

def callWorkCallback (w : Work) : Work :=
  { w with workCalls := w.workCalls + 1, usedAfterDelete := w.usedAfterDelete || w.deleted }

/-- The callback that `add_work` schedules. -/
def runScheduled (w : Work) (uvQueueWork : Error) : Work :=
  if w.cancelled then
    { w.callWorkDoneCallback (.ofCode .operationCanceled) with deleted := true, request := .done }
  else if uvQueueWork.isError then
    { w.callWorkDoneCallback uvQueueWork with
      queued := true, deleted := true, request := .done }
  else { w with queued := true, request := .queued }

/-- The second half of `cancel_work`. `uv_cancel` takes the request back if no worker
has it, and its `after_work` then gets the status for it. -/
def cancelRequest (w : Work) : Work :=
  let back := if w.loop = .cancelling then .idle else .afterWork
  if w.queued then
    if w.request = .queued then
      { w with
        loop := back
        request := .returned (.ofCode .operationCanceled)
        cancelResult := some {} }
    else { w with loop := back, cancelResult := some (.ofCode .resourceBusyOrLocked) }
  else { w with loop := back, cancelResult := some {} }

/-- When a step can happen. There is one call of `cancel_work`, while the object
exists. -/
def enabled (w : Work) : WorkEvent → Prop
  | .runScheduled _ => w.loop = .idle ∧ w.request = .unqueued
  | .cancelStore =>
      (w.loop = .idle ∨ w.loop = .afterWork) ∧ w.cancelled = false ∧ w.deleted = false
  | .cancelRequest =>
      (w.loop = .cancelling ∨ w.loop = .afterWorkCancelling) ∧ w.request ≠ .undefined
  | .start => w.request = .queued
  | .readFlag => w.request = .started
  | .callWork => w.request = .working
  | .leave => w.request = .leaving
  | .afterWork status => w.loop = .idle ∧ w.request = .returned status
  | .delete => w.loop = .afterWork

instance (w : Work) (e : WorkEvent) : Decidable (w.enabled e) := by
  cases e <;> unfold enabled <;> infer_instance

/-- What a step does. `on_work` reads the flag, then calls the work callback or goes through
the wrong pointer, then returns; `on_after_work` calls the done callback, then deletes. -/
def apply (w : Work) : WorkEvent → Work
  | .runScheduled uvQueueWork => w.runScheduled uvQueueWork
  | .cancelStore =>
      { w with
        cancelled := true
        loop := if w.loop = .idle then .cancelling else .afterWorkCancelling }
  | .cancelRequest => w.cancelRequest
  | .start => { w with request := .started }
  | .readFlag => { w with request := if w.cancelled then .undefined else .working }
  | .callWork => { w.callWorkCallback with request := .leaving }
  | .leave => { w with request := .returned {} }
  | .afterWork status =>
      { w.callWorkDoneCallback status with loop := .afterWork, request := .done }
  | .delete => { w with deleted := true, loop := .idle }

def step (w : Work) (e : WorkEvent) : Option Work :=
  if w.enabled e then some (w.apply e) else none

theorem step_eq_some {w w' : Work} : w.step e = some w' ↔ w.enabled e ∧ w.apply e = w' := by
  simp [step, Option.ite_none_right_eq_some]

/-! ## The calls of an item -/

variable {w w' : Work}

/-- The done callback is called when the request is over, and the work callback before it. An
object whose request is over is deleted, or `on_after_work` is about to delete it. -/
structure Counted (w : Work) : Prop where
  hasDone : w.hasDoneCallback = true
  notUsed : w.usedAfterDelete = false
  ended : w.request = .done ↔
    w.deleted = true ∨ w.loop = .afterWork ∨ w.loop = .afterWorkCancelling
  pending : w.request ≠ .done → w.doneCalls = []
  reported : w.request = .done → w.doneCalls.length = 1
  once : w.workCalls ≤ 1
  unworked : w.request ≠ .leaving → w.request ≠ .returned {} → w.request ≠ .done → w.workCalls = 0
  cancelled : .ofCode .operationCanceled ∈ w.doneCalls → w.workCalls = 0

/-- The step does not find the item cancelled in `on_work`. -/
def FlagUnseen (w : Work) (e : WorkEvent) : Prop := e = .readFlag → w.cancelled = false

theorem counted_addWork : Counted { hasDoneCallback := true } where
  hasDone := rfl
  notUsed := rfl
  ended := by decide
  pending _ := rfl
  reported h := by cases h
  once := Nat.zero_le 1
  unworked _ _ _ := rfl
  cancelled h := by cases h

theorem Counted.runScheduled (h : w.Counted) (hrequest : w.request = .unqueued)
    (uvQueueWork : Error) : (w.runScheduled uvQueueWork).Counted := by
  obtain ⟨hdone, hused, hended, hpending, -, honce, hunworked, -⟩ := h
  constructor <;> grind [Work.runScheduled, callWorkDoneCallback]

theorem Counted.apply (h : w.Counted) (hen : w.enabled e) : (w.apply e).Counted := by
  cases e with
  | runScheduled uvQueueWork => exact h.runScheduled hen.2 uvQueueWork
  | cancelRequest =>
      obtain ⟨hdone, hused, hended, hpending, hreported, honce, hunworked, hcancelled⟩ := h
      constructor <;> grind [Work.apply, Work.enabled, cancelRequest]
  | cancelStore =>
      obtain ⟨hdone, hused, hended, hpending, hreported, honce, hunworked, hcancelled⟩ := h
      constructor <;> grind [Work.apply, Work.enabled]
  | afterWork status =>
      obtain ⟨hdone, hused, hended, hpending, hreported, honce, hunworked, hcancelled⟩ := h
      have hfailed : Error.ofCode .operationCanceled ≠ {} := by decide
      constructor <;> grind [Work.apply, Work.enabled, callWorkDoneCallback]
  | _ =>
      obtain ⟨hdone, hused, hended, hpending, hreported, honce, hunworked, hcancelled⟩ := h
      constructor <;> grind [Work.apply, Work.enabled, callWorkCallback]

/-! ## Finished items -/

/-- What is promised of an item: once it is deleted its done callback was called once,
the work callback at most once and not if the item was reported as cancelled; a deleted object is
not used; and as long as the item is not deleted the program does something defined next. -/
structure Sound (w : Work) : Prop where
  finished : w.deleted = true → w.doneCalls.length = 1 ∧ w.workCalls ≤ 1 ∧
    (.ofCode .operationCanceled ∈ w.doneCalls → w.workCalls = 0)
  notUsed : w.usedAfterDelete = false
  defined : w.request ≠ .undefined
  goesOn : w.deleted = true ∨ ∃ e, w.enabled e

theorem Counted.goesOn (h : w.Counted) (hdefined : w.request ≠ .undefined) :
    w.deleted = true ∨ ∃ e, w.enabled e := by
  cases hloop : w.loop with
  | cancelling => exact .inr ⟨.cancelRequest, .inl hloop, hdefined⟩
  | afterWorkCancelling => exact .inr ⟨.cancelRequest, .inr hloop, hdefined⟩
  | afterWork => exact .inr ⟨.delete, hloop⟩
  | idle =>
      cases hrequest : w.request with
      | unqueued => exact .inr ⟨.runScheduled {}, hloop, hrequest⟩
      | queued => exact .inr ⟨.start, hrequest⟩
      | started => exact .inr ⟨.readFlag, hrequest⟩
      | undefined => exact absurd hrequest hdefined
      | working => exact .inr ⟨.callWork, hrequest⟩
      | leaving => exact .inr ⟨.leave, hrequest⟩
      | returned status => exact .inr ⟨.afterWork status, hloop, hrequest⟩
      | done => exact .inl (by simpa [hloop] using h.ended.mp hrequest)

theorem Counted.sound (h : w.Counted) (hdefined : w.request ≠ .undefined) : w.Sound where
  finished hdeleted := ⟨h.reported (h.ended.mpr (.inl hdeleted)), h.once, h.cancelled⟩
  notUsed := h.notUsed
  defined := hdefined
  goesOn := h.goesOn hdefined

theorem apply_defined (hen : w.enabled e) (hunseen : w.FlagUnseen e)
    (hdefined : w.request ≠ .undefined) : (w.apply e).request ≠ .undefined := by
  cases e with
  | readFlag => simp [apply, hunseen rfl]
  | runScheduled uvQueueWork => grind [apply, runScheduled, callWorkDoneCallback]
  | _ => grind [apply, cancelRequest, callWorkDoneCallback, callWorkCallback]

/-- The promise is kept in every state of a run exactly if no worker finds the item cancelled. -/
theorem work_sound_iff {w t : Work} (hadd : addWork true true = some w) {events : List WorkEvent}
    (hrun : exec step w events = some t) :
    Throughout step Sound w events ↔ Along step FlagUnseen w events := by
  cases hadd
  refine throughout_iff_along
    (fun w (hw : w.Counted ∧ w.request ≠ .undefined) => hw.1.sound hw.2) ?_ ?_
    ⟨counted_addWork, by decide⟩ hrun
  · rintro w e w' ⟨hcounted, hdefined⟩ hunseen hstep
    obtain ⟨hen, rfl⟩ := step_eq_some.mp hstep
    exact ⟨hcounted.apply hen, apply_defined hen hunseen hdefined⟩
  · intro w e w' _ hseen hstep hsound
    obtain ⟨hen, rfl⟩ := step_eq_some.mp hstep
    simp only [FlagUnseen, Classical.not_imp, Bool.not_eq_false] at hseen
    obtain ⟨rfl, hcancelled⟩ := hseen
    exact hsound.defined (by simp [apply, hcancelled])

/-- A worker has taken the item when it is cancelled, and reads the flag before
`uv_cancel` is called. -/
def lateCancel : List WorkEvent := [.runScheduled {}, .start, .cancelStore, .readFlag]

/-- The worker goes through the wrong pointer: the done callback was not called, and nothing
is defined to follow. -/
theorem work_undefined :
    addWork true true = some { hasDoneCallback := true } ∧
      (∃ t, exec step { hasDoneCallback := true } lateCancel = some t ∧
        t.request = .undefined ∧ t.doneCalls = [] ∧ ∀ e, t.step e = none) ∧
      ¬ Throughout step Sound { hasDoneCallback := true } lateCancel := by
  have hrun : exec step { hasDoneCallback := true } lateCancel = some
      { hasDoneCallback := true, request := .undefined, loop := .cancelling, cancelled := true,
        queued := true } := by
    decide
  refine ⟨rfl, ⟨_, hrun, rfl, rfl, ?_⟩, ?_⟩
  · intro e
    cases e <;> simp [step, enabled]
  · exact fun hall => (hall.last hrun).defined rfl

def cancelledInWork : List WorkEvent :=
  [.runScheduled {}, .start, .readFlag, .cancelStore, .callWork, .cancelRequest, .leave,
    .afterWork {}, .delete]

theorem work_sound_iff_cancelledInWork :
    Throughout step Sound { hasDoneCallback := true } cancelledInWork := by
  have hrun : exec step { hasDoneCallback := true } cancelledInWork =
      some { hasDoneCallback := true, request := .done, cancelled := true, queued := true,
             deleted := true, cancelResult := some (.ofCode .resourceBusyOrLocked),
             doneCalls := [{}], workCalls := 1 } := by
    decide
  refine (work_sound_iff (w := { hasDoneCallback := true }) rfl hrun).mpr ?_
  simp [Along, cancelledInWork, step, enabled, apply, FlagUnseen, Work.runScheduled,
    callWorkCallback, cancelRequest]

end Work

end TarmIo.Loop
