import Mathlib.Data.List.Nodup
import TarmIo.Foundation.BatchQueue
import TarmIo.Foundation.Execution

/-!
# `schedule_callback` of `EventLoop.cpp`

The callbacks that wait for the next cycle of the loop, and the idle handle whose function
executes them. The function takes the queue, calls what it took, and stops its own handle when
nothing was scheduled meanwhile. Of libuv it is used that handles are initialised and started, that
each idle handle which is active when a cycle begins and stays so is called once in it, and
that a handle which is started in a cycle waits for the next one.
-/

namespace TarmIo.Loop

open Foundation

/-- A callback in `m_sync_callbacks_queue`. `scheduledIn` is the number of the cycle in which a
scheduled callback scheduled it. -/
structure Scheduled (α : Type*) where
  callback : α
  scheduledIn : Option Nat
deriving DecidableEq

inductive IdleCallback
  | executor
  | user
deriving DecidableEq

structure Idle where
  handle : Nat
  callback : IdleCallback
deriving DecidableEq

def Idle.isExecutor (idle : Idle) : Bool := idle.callback == .executor

/-- The queue with the callbacks executed so far, each with the number of its cycle, the members
around it and the active idle handles. `due` holds the handles that the cycle has not come to yet;
`executing` is the function of the executor, `running` a callback that it calls. -/
structure SyncCallbacks (α : Type*) where
  queue : BatchQueue (Scheduled α) Nat := {}
  executorHandle : Nat := 0
  haveActive : Bool := false
  idles : List Idle := []
  handles : Nat := 0
  cycle : Nat := 0
  due : Option (List Nat) := none
  executing : Bool := false
  running : Bool := false

inductive SyncEvent (α : Type*)
  | scheduleCallback (callback : α)
  | scheduleCallOnEachLoopCycle
  | stopCallOnEachLoopCycle (handle : Nat)
  | beginCycle
  | onIdle (handle : Nat)
  | next
  | leave
  | executed
  | endCycle
deriving DecidableEq

namespace SyncCallbacks

variable {α : Type*}

def scheduleCallOnEachLoopCycle (s : SyncCallbacks α) (callback : IdleCallback) :
    SyncCallbacks α × Nat :=
  ({ s with
      handles := s.handles + 1
      idles := s.idles ++ [{ handle := s.handles + 1, callback }] },
    s.handles + 1)

def stopCallOnEachLoopCycle (s : SyncCallbacks α) (handle : Nat) : SyncCallbacks α :=
  { s with idles := s.idles.filter fun idle => idle.handle != handle }

def startExecutor (s : SyncCallbacks α) : SyncCallbacks α :=
  if s.haveActive then s
  else
    let started := s.scheduleCallOnEachLoopCycle .executor
    { started.1 with executorHandle := started.2, haveActive := true }

def scheduleCallback (s : SyncCallbacks α) (callback : Scheduled α) : SyncCallbacks α :=
  { s.startExecutor with queue := s.queue.push callback }

def finishExecuting (s : SyncCallbacks α) : SyncCallbacks α :=
  if s.queue.waiting.isEmpty then
    { s.stopCallOnEachLoopCycle s.executorHandle with haveActive := false, executing := false }
  else { s with executing := false }

/-- `on_idle` of one handle. What a callback of the user does are calls of their own. -/
def onIdle (s : SyncCallbacks α) (idle : Idle) (due : List Nat) : SyncCallbacks α :=
  let rest := due.filter (· != idle.handle)
  match idle.callback with
  | .executor => { s with due := some rest, executing := true, queue := s.queue.swap }
  | .user => { s with due := some rest }

def UserRuns (s : SyncCallbacks α) : Prop := s.executing = true → s.running = true

instance (s : SyncCallbacks α) : Decidable s.UserRuns :=
  inferInstanceAs (Decidable (_ = true → _ = true))

def scheduled (s : SyncCallbacks α) (callback : α) : Scheduled α where
  callback := callback
  scheduledIn := if s.running then some s.cycle else none

/-- A user stops only handles of their own. -/
def step (s : SyncCallbacks α) : SyncEvent α → Option (SyncCallbacks α)
  | .scheduleCallback callback =>
      if s.UserRuns then some (s.scheduleCallback (s.scheduled callback)) else none
  | .scheduleCallOnEachLoopCycle =>
      if s.UserRuns then some (s.scheduleCallOnEachLoopCycle .user).1 else none
  | .stopCallOnEachLoopCycle handle =>
      if s.UserRuns ∧ { handle, callback := .user } ∈ s.idles then
        some (s.stopCallOnEachLoopCycle handle)
      else none
  | .beginCycle =>
      match s.due with
      | none => some { s with due := some (s.idles.map Idle.handle), cycle := s.cycle + 1 }
      | some _ => none
  | .onIdle handle =>
      match s.due, s.idles.find? (·.handle == handle) with
      | some due, some idle =>
          if handle ∈ due ∧ s.executing = false then some (s.onIdle idle due) else none
      | _, _ => none
  | .next =>
      if s.executing = true ∧ s.running = false then
        (s.queue.next s.cycle).map fun queue => { s with queue, running := true }
      else none
  | .leave => if s.running = true then some { s with running := false } else none
  | .executed =>
      if s.executing = true ∧ s.running = false ∧ s.queue.batch.isEmpty = true then
        some s.finishExecuting
      else none
  | .endCycle =>
      match s.due with
      | none => none
      | some due =>
          if s.executing = false ∧ ∀ idle ∈ s.idles, idle.handle ∉ due then
            some { s with due := none }
          else none

def schedules (s : SyncCallbacks α) : SyncEvent α → List (Scheduled α)
  | .scheduleCallback callback => [s.scheduled callback]
  | _ => []

def executors (s : SyncCallbacks α) : List Idle := s.idles.filter Idle.isExecutor

/-! ## The handle of the executor -/

/-- The executor has one handle exactly when the flag says so, and has it whenever callbacks wait
or are executed. A cycle that executes them does not come to this handle again. -/
structure Wired (s : SyncCallbacks α) : Prop where
  executors : s.executors = if s.haveActive then [⟨s.executorHandle, .executor⟩] else []
  distinct : (s.idles.map Idle.handle).Nodup
  made : ∀ idle ∈ s.idles, idle.handle ≤ s.handles
  dueMade : ∀ due ∈ s.due, ∀ handle ∈ due, handle ≤ s.handles
  waiting : s.queue.waiting ≠ [] → s.haveActive = true
  batch : s.queue.batch ≠ [] → s.executing = true
  executing : s.executing = true → s.haveActive = true ∧ ∃ due ∈ s.due, s.executorHandle ∉ due
  running : s.running = true → s.executing = true

variable {s t : SyncCallbacks α} {e : SyncEvent α} {idle : Idle} {due : List Nat}

variable {handle : Nat} {queue : BatchQueue (Scheduled α) Nat}

theorem step_beginCycle (hstep : s.step .beginCycle = some t) :
    s.due = none ∧ t = { s with due := some (s.idles.map Idle.handle), cycle := s.cycle + 1 } := by
  rw [step] at hstep
  split at hstep
  · rename_i hdue
    cases hstep
    exact ⟨hdue, rfl⟩
  · cases hstep

theorem step_onIdle (hstep : s.step (.onIdle handle) = some t) :
    ∃ due idle, s.due = some due ∧ idle ∈ s.idles ∧ idle.handle ∈ due ∧ s.executing = false ∧
      t = s.onIdle idle due := by
  rw [step] at hstep
  split at hstep
  · rename_i due idle hdue hfind
    split at hstep
    · rename_i hturn
      cases hstep
      have hhandle : idle.handle = handle := by simpa using List.find?_some hfind
      exact ⟨due, idle, hdue, List.mem_of_find?_eq_some hfind, hhandle ▸ hturn.1, hturn.2, rfl⟩
    · cases hstep
  · cases hstep

theorem step_endCycle (hstep : s.step .endCycle = some t) :
    ∃ due, s.due = some due ∧ s.executing = false ∧ (∀ idle ∈ s.idles, idle.handle ∉ due) ∧
      t = { s with due := none } := by
  rw [step] at hstep
  split at hstep
  · cases hstep
  · rename_i due hdue
    split at hstep
    · rename_i hover
      cases hstep
      exact ⟨due, hdue, hover.1, hover.2, rfl⟩
    · cases hstep

theorem Wired.executor_mem (h : s.Wired) (hactive : s.haveActive = true) :
    ⟨s.executorHandle, .executor⟩ ∈ s.idles := by
  have hmem : (⟨s.executorHandle, .executor⟩ : Idle) ∈ s.executors := by
    rw [h.executors, if_pos hactive]
    exact List.mem_singleton_self _
  exact List.mem_of_mem_filter hmem

/-- The only executor among the handles. -/
theorem Wired.eq_executor (h : s.Wired) (hmem : idle ∈ s.idles)
    (hexecutor : idle.callback = .executor) :
    s.haveActive = true ∧ idle.handle = s.executorHandle := by
  have hfilter : idle ∈ s.executors :=
    List.mem_filter.mpr ⟨hmem, by simp [Idle.isExecutor, hexecutor]⟩
  rw [h.executors] at hfilter
  split at hfilter
  · rename_i hactive
    rw [List.mem_singleton.mp hfilter]
    exact ⟨hactive, rfl⟩
  · cases hfilter

theorem Wired.ne_executor (h : s.Wired) (hmem : ⟨handle, .user⟩ ∈ s.idles)
    (hactive : s.haveActive = true) : handle ≠ s.executorHandle := by
  intro heq
  have hsame := List.inj_on_of_nodup_map h.distinct hmem (h.executor_mem hactive) heq
  cases hsame

theorem nodup_startIdle (hdistinct : (s.idles.map Idle.handle).Nodup)
    (hmade : ∀ idle ∈ s.idles, idle.handle ≤ s.handles) (callback : IdleCallback) :
    (((s.scheduleCallOnEachLoopCycle callback).1.idles).map Idle.handle).Nodup := by
  rw [scheduleCallOnEachLoopCycle, List.map_append, List.nodup_append]
  refine ⟨hdistinct, List.nodup_singleton _, ?_⟩
  intro handle hold new hnew
  obtain ⟨idle, hidle, rfl⟩ := List.mem_map.mp hold
  have hle := hmade idle hidle
  rw [List.map_singleton, List.mem_singleton] at hnew
  subst hnew
  exact Nat.ne_of_lt (Nat.lt_succ_of_le hle)

theorem made_startIdle (hmade : ∀ idle ∈ s.idles, idle.handle ≤ s.handles)
    (callback : IdleCallback) :
    ∀ idle ∈ (s.scheduleCallOnEachLoopCycle callback).1.idles, idle.handle ≤ s.handles + 1 := by
  intro idle hidle
  rcases List.mem_append.mp hidle with hold | hnew
  · exact Nat.le_succ_of_le (hmade idle hold)
  · obtain rfl := List.mem_singleton.mp hnew
    exact Nat.le_refl _

theorem Wired.startIdle (h : s.Wired) : (s.scheduleCallOnEachLoopCycle .user).1.Wired :=
  { h with
    executors := by
      rw [SyncCallbacks.executors, scheduleCallOnEachLoopCycle, List.filter_append]
      exact (List.append_nil _).trans h.executors
    distinct := nodup_startIdle h.distinct h.made .user
    made := made_startIdle h.made .user
    dueMade := fun due hdue handle hmem => Nat.le_succ_of_le (h.dueMade due hdue handle hmem) }

theorem Wired.startExecutor (h : s.Wired) :
    s.startExecutor.Wired ∧ s.startExecutor.haveActive = true := by
  rw [SyncCallbacks.startExecutor]
  split
  · rename_i hactive
    exact ⟨h, hactive⟩
  · rename_i hactive
    have hnone : s.executors = [] := h.executors.trans (if_neg hactive)
    refine ⟨{ h with
      executors := ?_
      distinct := nodup_startIdle h.distinct h.made .executor
      made := made_startIdle h.made .executor
      dueMade := fun due hdue handle hmem => Nat.le_succ_of_le (h.dueMade due hdue handle hmem)
      waiting := fun _ => rfl
      executing := fun hexecuting => absurd (h.executing hexecuting).1 hactive }, rfl⟩
    rw [SyncCallbacks.executors] at hnone ⊢
    simp [scheduleCallOnEachLoopCycle, hnone, Idle.isExecutor]

theorem queue_startExecutor (s : SyncCallbacks α) : s.startExecutor.queue = s.queue := by
  rw [SyncCallbacks.startExecutor]
  split <;> rfl

section

variable (h : s.Wired)
include h

theorem Wired.scheduleCallback (callback : Scheduled α) : (s.scheduleCallback callback).Wired := by
  obtain ⟨hstarted, hactive⟩ := h.startExecutor
  have hbatch := hstarted.batch
  rw [queue_startExecutor] at hbatch
  exact { hstarted with waiting := fun _ => hactive, batch := hbatch }

theorem Wired.stopIdle (hmem : ⟨handle, .user⟩ ∈ s.idles) :
    (s.stopCallOnEachLoopCycle handle).Wired :=
  { h with
    executors := by
      refine Eq.trans ?_ h.executors
      rw [SyncCallbacks.executors, SyncCallbacks.executors, stopCallOnEachLoopCycle,
        List.filter_filter]
      refine List.filter_congr fun idle hidle => ?_
      cases hcallback : idle.callback with
      | user => simp [Idle.isExecutor, hcallback]
      | executor =>
          obtain ⟨hactive, hsame⟩ := h.eq_executor hidle hcallback
          have hne := h.ne_executor hmem hactive
          simp [Idle.isExecutor, hcallback, hsame, hne.symm]
    distinct := h.distinct.sublist (List.filter_sublist.map _)
    made := fun idle hidle => h.made idle (List.mem_of_mem_filter hidle) }

theorem Wired.beginCycle (hdue : s.due = none) :
    { s with due := some (s.idles.map Idle.handle), cycle := s.cycle + 1 }.Wired :=
  { h with
    dueMade := by
      rintro due ⟨⟩ handle hmem
      obtain ⟨idle, hidle, rfl⟩ := List.mem_map.mp hmem
      exact h.made idle hidle
    executing := by
      intro hexecuting
      obtain ⟨-, due, hmem, -⟩ := h.executing hexecuting
      rw [hdue] at hmem
      cases hmem }

theorem Wired.onIdle (hdue : s.due = some due) (hmem : idle ∈ s.idles)
    (hexecuting : s.executing = false) : (s.onIdle idle due).Wired := by
  have hmade : ∀ rest ∈ some (due.filter (· != idle.handle)), ∀ handle ∈ rest,
      handle ≤ s.handles := by
    rintro rest ⟨⟩ handle hrest
    exact h.dueMade due (by rw [hdue]; rfl) handle (List.mem_of_mem_filter hrest)
  rw [SyncCallbacks.onIdle]
  split
  · rename_i hcallback
    obtain ⟨hactive, hhandle⟩ := h.eq_executor hmem hcallback
    refine { h with
      dueMade := hmade
      waiting := fun hne => absurd rfl hne
      batch := fun _ => rfl
      executing := fun _ => ⟨hactive, _, rfl, ?_⟩
      running := fun _ => rfl }
    simp [hhandle]
  · exact { h with
      dueMade := hmade
      executing := fun htrue => absurd (hexecuting.symm.trans htrue) Bool.false_ne_true }

theorem Wired.next (hexecuting : s.executing = true) (hnext : s.queue.next s.cycle = some queue) :
    { s with queue := queue, running := true }.Wired := by
  obtain ⟨-, -, -, hwaiting, -⟩ := BatchQueue.next_eq_some hnext
  refine { h with
    waiting := fun hne => h.waiting ?_
    batch := fun _ => hexecuting
    running := fun _ => hexecuting }
  rwa [← hwaiting]

theorem Wired.finishExecuting (hrunning : s.running = false) (hbatch : s.queue.batch = []) :
    s.finishExecuting.Wired := by
  have hidle : s.running = true → false = true := fun hrun => hrunning.symm.trans hrun
  rw [SyncCallbacks.finishExecuting]
  split
  · rename_i hempty
    refine
      { executors := ?_
        distinct := h.distinct.sublist (List.filter_sublist.map _)
        made := fun idle hmem => h.made idle (List.mem_of_mem_filter hmem)
        dueMade := h.dueMade
        waiting := fun hne => absurd (List.isEmpty_iff.mp hempty) hne
        batch := fun hne => absurd hbatch hne
        executing := fun hfalse => by cases hfalse
        running := hidle }
    rw [SyncCallbacks.executors, if_neg Bool.false_ne_true, List.filter_eq_nil_iff]
    intro idle hmem hexecutor
    obtain ⟨hmem, hother⟩ := List.mem_filter.mp hmem
    obtain ⟨-, hhandle⟩ := h.eq_executor hmem (by simpa [Idle.isExecutor] using hexecutor)
    simp [hhandle] at hother
  · exact { h with
      batch := fun hne => absurd hbatch hne
      executing := fun hfalse => by cases hfalse
      running := hidle }

theorem step_wired (hstep : s.step e = some t) : t.Wired := by
  cases e with
  | scheduleCallback callback =>
      obtain ⟨-, rfl⟩ := by simpa [step] using hstep
      exact h.scheduleCallback _
  | scheduleCallOnEachLoopCycle =>
      obtain ⟨-, rfl⟩ := by simpa [step] using hstep
      exact h.startIdle
  | stopCallOnEachLoopCycle handle =>
      obtain ⟨⟨-, hmem⟩, rfl⟩ := by simpa [step] using hstep
      exact h.stopIdle hmem
  | beginCycle =>
      obtain ⟨hdue, rfl⟩ := step_beginCycle hstep
      exact h.beginCycle hdue
  | onIdle handle =>
      obtain ⟨due, idle, hdue, hmem, -, hexecuting, rfl⟩ := step_onIdle hstep
      exact h.onIdle hdue hmem hexecuting
  | next =>
      obtain ⟨⟨hexecuting, -⟩, queue, hnext, rfl⟩ := by simpa [step] using hstep
      exact h.next hexecuting hnext
  | leave =>
      obtain ⟨-, rfl⟩ := by simpa [step] using hstep
      exact { h with running := fun hfalse => by cases hfalse }
  | executed =>
      obtain ⟨⟨-, hrunning, hbatch⟩, rfl⟩ := by simpa [step] using hstep
      exact h.finishExecuting hrunning hbatch
  | endCycle =>
      obtain ⟨due, -, hexecuting, -, rfl⟩ := step_endCycle hstep
      exact { h with
        dueMade := fun due hdue => by cases hdue
        executing := fun htrue => absurd (hexecuting.symm.trans htrue) Bool.false_ne_true }

end

/-! ## Cycles -/

/-- A callback that was scheduled by another one is executed in a later cycle: the cycle in which
it was scheduled does not come to the executor any more. -/
structure Later (s : SyncCallbacks α) : Prop where
  waiting : ∀ p ∈ s.queue.waiting, ∀ n ∈ p.scheduledIn,
    n ≤ s.cycle ∧ (n = s.cycle → ∀ due ∈ s.due, s.executorHandle ∉ due)
  batch : ∀ p ∈ s.queue.batch, ∀ n ∈ p.scheduledIn, n < s.cycle
  done : ∀ entry ∈ s.queue.done, ∀ n ∈ entry.1.scheduledIn, n < entry.2

theorem startExecutor_of_active (hactive : s.haveActive = true) : s.startExecutor = s :=
  if_pos hactive

theorem frame_startExecutor (s : SyncCallbacks α) :
    s.startExecutor.cycle = s.cycle ∧ s.startExecutor.due = s.due ∧
      s.startExecutor.executing = s.executing := by
  rw [startExecutor]
  split <;> exact ⟨rfl, rfl, rfl⟩

theorem Later.scheduleCallback (h : s.Later) (hw : s.Wired) (callback : α) :
    (s.scheduleCallback (s.scheduled callback)).Later := by
  obtain ⟨hcycle, hdue, -⟩ := s.frame_startExecutor
  refine ⟨?_, ?_, h.done⟩
  · intro p hp n hn
    change n ≤ s.startExecutor.cycle ∧ (n = s.startExecutor.cycle →
      ∀ due ∈ s.startExecutor.due, s.startExecutor.executorHandle ∉ due)
    rcases List.mem_append.mp hp with hold | hnew
    · rw [startExecutor_of_active (hw.waiting (List.ne_nil_of_mem hold))]
      exact h.waiting p hold n hn
    · rw [List.mem_singleton.mp hnew] at hn
      obtain ⟨hrunning, rfl⟩ : s.running = true ∧ s.cycle = n := by simpa [scheduled] using hn
      obtain ⟨hactive, due, hmem, hnot⟩ := hw.executing (hw.running hrunning)
      rw [startExecutor_of_active hactive]
      refine ⟨Nat.le_refl _, fun _ due' hmem' => ?_⟩
      cases hmem.symm.trans hmem'
      exact hnot
  · intro p hp n hn
    change n < s.startExecutor.cycle
    rw [hcycle]
    exact h.batch p hp n hn

theorem Later.onIdle (h : s.Later) (hw : s.Wired) (hdue : s.due = some due) (hmem : idle ∈ s.idles)
    (hturn : idle.handle ∈ due) : (s.onIdle idle due).Later := by
  rw [SyncCallbacks.onIdle]
  split
  · rename_i hcallback
    obtain ⟨-, hhandle⟩ := hw.eq_executor hmem hcallback
    refine ⟨(fun p hp => by cases hp), fun p hp n hn => ?_, h.done⟩
    rcases List.mem_append.mp hp with hold | hnew
    · exact h.batch p hold n hn
    · obtain ⟨hle, hlater⟩ := h.waiting p hnew n hn
      refine Nat.lt_of_le_of_ne hle fun hsame => ?_
      exact hlater hsame due hdue (hhandle ▸ hturn)
  · refine ⟨fun p hp n hn => ?_, h.batch, h.done⟩
    obtain ⟨hle, hlater⟩ := h.waiting p hp n hn
    refine ⟨hle, ?_⟩
    rintro hsame rest ⟨⟩ hrest
    exact hlater hsame due hdue (List.mem_of_mem_filter hrest)

theorem Later.next (h : s.Later) (hnext : s.queue.next s.cycle = some queue) :
    { s with queue := queue, running := true }.Later := by
  obtain ⟨p, hbatch, hdone, hwaiting, -⟩ := BatchQueue.next_eq_some hnext
  refine ⟨fun p hp => h.waiting p (hwaiting ▸ hp), fun q hq => ?_, fun entry hentry n hn => ?_⟩
  · exact h.batch q (by rw [hbatch]; exact List.mem_cons_of_mem p hq)
  · change entry ∈ queue.done at hentry
    rw [hdone] at hentry
    rcases List.mem_append.mp hentry with hold | hnew
    · exact h.done entry hold n hn
    · rw [List.mem_singleton.mp hnew] at hn ⊢
      exact h.batch p (by rw [hbatch]; exact List.mem_cons_self) n hn

theorem step_later (hw : s.Wired) (h : s.Later) (hstep : s.step e = some t) : t.Later := by
  cases e with
  | scheduleCallback callback =>
      obtain ⟨-, rfl⟩ := by simpa [step] using hstep
      exact h.scheduleCallback hw callback
  | scheduleCallOnEachLoopCycle =>
      obtain ⟨-, rfl⟩ := by simpa [step] using hstep
      exact ⟨h.waiting, h.batch, h.done⟩
  | stopCallOnEachLoopCycle handle =>
      obtain ⟨-, rfl⟩ := by simpa [step] using hstep
      exact ⟨h.waiting, h.batch, h.done⟩
  | beginCycle =>
      obtain ⟨-, rfl⟩ := step_beginCycle hstep
      refine ⟨fun p hp n hn => ?_, fun p hp n hn => Nat.lt_succ_of_lt (h.batch p hp n hn), h.done⟩
      have hle := (h.waiting p hp n hn).1
      have hne := Nat.ne_of_lt (Nat.lt_succ_of_le hle)
      exact ⟨Nat.le_succ_of_le hle, fun hsame => absurd hsame hne⟩
  | onIdle handle =>
      obtain ⟨due, idle, hdue, hmem, hturn, -, rfl⟩ := step_onIdle hstep
      exact h.onIdle hw hdue hmem hturn
  | next =>
      obtain ⟨-, queue, hnext, rfl⟩ := by simpa [step] using hstep
      exact h.next hnext
  | leave =>
      obtain ⟨-, rfl⟩ := by simpa [step] using hstep
      exact ⟨h.waiting, h.batch, h.done⟩
  | executed =>
      obtain ⟨-, rfl⟩ := by simpa [step] using hstep
      unfold finishExecuting
      split
      · exact ⟨h.waiting, h.batch, h.done⟩
      · exact ⟨h.waiting, h.batch, h.done⟩
  | endCycle =>
      obtain ⟨due, -, -, -, rfl⟩ := step_endCycle hstep
      exact ⟨fun p hp n hn => ⟨(h.waiting p hp n hn).1, fun _ due hdue => by cases hdue⟩,
        h.batch, h.done⟩

/-! ## Progress -/

/-- On the way from cycle `cycle` to the execution of the first `n` callbacks: the next cycle has
not begun, or has still to call the executor, or is executing them, or they were executed. -/
def Serves (n cycle : Nat) (s : SyncCallbacks α) : Prop :=
  n ≤ s.queue.entered.length ∧
    ((s.cycle = cycle ∧ s.due = none) ∨
      (s.haveActive = true ∧ s.executing = false ∧ ∃ due ∈ s.due, s.executorHandle ∈ due) ∨
      (s.executing = true ∧ n ≤ s.queue.done.length + s.queue.batch.length) ∨
      n ≤ s.queue.done.length)

variable {n cycle : Nat}

theorem Wired.executing_eq_false (h : s.Wired) (hdue : s.due = none) : s.executing = false := by
  cases hexecuting : s.executing with
  | false => rfl
  | true =>
      obtain ⟨-, due, hmem, -⟩ := h.executing hexecuting
      rw [hdue] at hmem
      cases hmem

theorem Wired.batch_eq_nil (h : s.Wired) (hexecuting : s.executing = false) :
    s.queue.batch = [] := by
  by_contra hne
  exact Bool.false_ne_true (hexecuting.symm.trans (h.batch hne))

theorem Serves.scheduleCallback (h : s.Serves n cycle) (callback : Scheduled α) :
    (s.scheduleCallback callback).Serves n cycle := by
  obtain ⟨hcycle, hdue, hexecuting⟩ := s.frame_startExecutor
  obtain ⟨hle, h⟩ := h
  refine ⟨by simp [SyncCallbacks.scheduleCallback, BatchQueue.push]; omega, ?_⟩
  rcases h with ⟨h₁, h₂⟩ | ⟨hactive, h⟩ | ⟨h₁, h₂⟩ | h
  · exact .inl ⟨hcycle.trans h₁, hdue.trans h₂⟩
  · refine .inr (.inl ?_)
    change s.startExecutor.haveActive = true ∧ s.startExecutor.executing = false ∧
      ∃ due ∈ s.startExecutor.due, s.startExecutor.executorHandle ∈ due
    rw [startExecutor_of_active hactive]
    exact ⟨hactive, h⟩
  · exact .inr (.inr (.inl ⟨hexecuting.trans h₁, h₂⟩))
  · exact .inr (.inr (.inr h))

/-- With callbacks to execute the new cycle has to call the executor. -/
theorem Serves.beginCycle (hw : s.Wired) (h : s.Serves n cycle) (hdue : s.due = none) :
    { s with due := some (s.idles.map Idle.handle), cycle := s.cycle + 1 }.Serves n cycle := by
  refine ⟨h.1, ?_⟩
  have hexecuting := hw.executing_eq_false hdue
  cases hactive : s.haveActive with
  | true =>
      refine .inr (.inl ⟨rfl, hexecuting, _, rfl, ?_⟩)
      exact List.mem_map.mpr ⟨_, hw.executor_mem hactive, rfl⟩
  | false =>
      have hwaiting : s.queue.waiting = [] := by
        by_contra hne
        exact Bool.false_ne_true (hactive.symm.trans (hw.waiting hne))
      have hlength := s.queue.length_entered
      rw [hw.batch_eq_nil hexecuting, hwaiting] at hlength
      exact .inr (.inr (.inr (Nat.le_trans h.1 (Nat.le_of_eq hlength.symm))))

theorem Serves.onIdle (hw : s.Wired) (h : s.Serves n cycle) (hdue : s.due = some due)
    (hmem : idle ∈ s.idles) (hexecuting : s.executing = false) :
    (s.onIdle idle due).Serves n cycle := by
  obtain ⟨hle, h⟩ := h
  rw [SyncCallbacks.onIdle]
  split
  · have hlength := s.queue.length_entered
    refine ⟨hle, .inr (.inr (.inl ⟨rfl, ?_⟩))⟩
    simp only [BatchQueue.swap, List.length_append]
    omega
  · rename_i huser
    refine ⟨hle, ?_⟩
    rcases h with ⟨-, h⟩ | ⟨hactive, -, due', hmem', hto⟩ | ⟨h, -⟩ | h
    · cases hdue.symm.trans h
    · cases hdue.symm.trans hmem'
      refine .inr (.inl ⟨hactive, hexecuting, _, rfl, List.mem_filter.mpr ⟨hto, ?_⟩⟩)
      obtain ⟨handle, callback⟩ := idle
      cases huser
      simpa using (hw.ne_executor hmem hactive).symm
    · cases hexecuting.symm.trans h
    · exact .inr (.inr (.inr h))

theorem Serves.next (h : s.Serves n cycle) (hexecuting : s.executing = true)
    (hnext : s.queue.next s.cycle = some queue) (hw : s.Wired) :
    { s with queue := queue, running := true }.Serves n cycle := by
  obtain ⟨p, hbatch, hdone, -, hentered⟩ := BatchQueue.next_eq_some hnext
  obtain ⟨hle, h⟩ := h
  refine ⟨hentered ▸ hle, .inr (.inr (.inl ⟨hexecuting, ?_⟩))⟩
  have hlength : queue.done.length + queue.batch.length =
      s.queue.done.length + s.queue.batch.length := by
    rw [hdone, hbatch, List.length_append, List.length_singleton, List.length_cons]
    omega
  change n ≤ queue.done.length + queue.batch.length
  rw [hlength]
  rcases h with ⟨-, h⟩ | ⟨-, h, -⟩ | ⟨-, h⟩ | h
  · cases hexecuting.symm.trans (hw.executing_eq_false h)
  · cases hexecuting.symm.trans h
  · exact h
  · exact Nat.le_add_right_of_le h

theorem Serves.finishExecuting (h : s.Serves n cycle) (hexecuting : s.executing = true)
    (hbatch : s.queue.batch = []) (hw : s.Wired) : s.finishExecuting.Serves n cycle := by
  obtain ⟨hle, h⟩ := h
  have hdone : n ≤ s.queue.done.length := by
    rcases h with ⟨-, h⟩ | ⟨-, h, -⟩ | ⟨-, h⟩ | h
    · cases hexecuting.symm.trans (hw.executing_eq_false h)
    · cases hexecuting.symm.trans h
    · rwa [hbatch] at h
    · exact h
  rw [SyncCallbacks.finishExecuting]
  split
  · exact ⟨hle, .inr (.inr (.inr hdone))⟩
  · exact ⟨hle, .inr (.inr (.inr hdone))⟩

/-- A cycle ends when the executor was called in it, if it was active. -/
theorem Serves.endCycle (h : s.Serves n cycle) (hw : s.Wired) (hdue : s.due = some due)
    (hexecuting : s.executing = false) (hcalled : ∀ idle ∈ s.idles, idle.handle ∉ due) :
    { s with due := none }.Serves n cycle := by
  obtain ⟨hle, h⟩ := h
  refine ⟨hle, .inr (.inr (.inr ?_))⟩
  rcases h with ⟨-, h⟩ | ⟨hactive, -, due', hmem, hto⟩ | ⟨h, -⟩ | h
  · cases hdue.symm.trans h
  · cases hdue.symm.trans hmem
    exact absurd hto (hcalled _ (hw.executor_mem hactive))
  · cases hexecuting.symm.trans h
  · exact h

theorem step_serves (hw : s.Wired) (h : s.Serves n cycle) (hstep : s.step e = some t) :
    t.Serves n cycle := by
  cases e with
  | scheduleCallback callback =>
      obtain ⟨-, rfl⟩ := by simpa [step] using hstep
      exact h.scheduleCallback _
  | scheduleCallOnEachLoopCycle =>
      obtain ⟨-, rfl⟩ := by simpa [step] using hstep
      exact h
  | stopCallOnEachLoopCycle handle =>
      obtain ⟨-, rfl⟩ := by simpa [step] using hstep
      exact h
  | beginCycle =>
      obtain ⟨hdue, rfl⟩ := step_beginCycle hstep
      exact h.beginCycle hw hdue
  | onIdle handle =>
      obtain ⟨due, idle, hdue, hmem, -, hexecuting, rfl⟩ := step_onIdle hstep
      exact h.onIdle hw hdue hmem hexecuting
  | next =>
      obtain ⟨⟨hexecuting, -⟩, queue, hnext, rfl⟩ := by simpa [step] using hstep
      exact h.next hexecuting hnext hw
  | leave =>
      obtain ⟨-, rfl⟩ := by simpa [step] using hstep
      exact h
  | executed =>
      obtain ⟨⟨hexecuting, -, hbatch⟩, rfl⟩ := by simpa [step] using hstep
      exact h.finishExecuting hexecuting hbatch hw
  | endCycle =>
      obtain ⟨due, hdue, hexecuting, hcalled, rfl⟩ := step_endCycle hstep
      exact h.endCycle hw hdue hexecuting hcalled

/-! ## Runs -/

theorem start_wired : ({} : SyncCallbacks α).Wired where
  executors := rfl
  distinct := List.nodup_nil
  made idle hidle := by cases hidle
  dueMade due hdue := by cases hdue
  waiting hne := absurd rfl hne
  batch hne := absurd rfl hne
  executing h := by cases h
  running h := by cases h

theorem start_later : ({} : SyncCallbacks α).Later where
  waiting p hp := by cases hp
  batch p hp := by cases hp
  done entry hentry := by cases hentry

/-- What enters the queue is what the events schedule. -/
theorem step_entered (s : SyncCallbacks α) (e : SyncEvent α) (t : SyncCallbacks α)
    (hstep : s.step e = some t) : t.queue.entered = s.queue.entered ++ s.schedules e := by
  have hnone : s.queue.entered = s.queue.entered ++ [] := (List.append_nil _).symm
  cases e with
  | scheduleCallback callback =>
      obtain ⟨-, rfl⟩ := by simpa [step] using hstep
      rfl
  | scheduleCallOnEachLoopCycle | stopCallOnEachLoopCycle handle | leave =>
      obtain ⟨-, rfl⟩ := by simpa [step] using hstep
      exact hnone
  | beginCycle =>
      obtain ⟨-, rfl⟩ := step_beginCycle hstep
      exact hnone
  | onIdle handle =>
      obtain ⟨due, idle, -, -, -, -, rfl⟩ := step_onIdle hstep
      unfold SyncCallbacks.onIdle
      split
      · exact hnone
      · exact hnone
  | next =>
      obtain ⟨-, queue, hnext, rfl⟩ := by simpa [step] using hstep
      obtain ⟨-, -, -, -, hentered⟩ := BatchQueue.next_eq_some hnext
      exact hentered.trans hnone
  | executed =>
      obtain ⟨-, rfl⟩ := by simpa [step] using hstep
      unfold SyncCallbacks.finishExecuting
      split
      · exact hnone
      · exact hnone
  | endCycle =>
      obtain ⟨due, -, -, -, rfl⟩ := step_endCycle hstep
      exact hnone

theorem exec_entered {s t : SyncCallbacks α} {run : List (SyncEvent α)}
    (h : exec step s run = some t) :
    t.queue.entered = s.queue.entered ++ outputs step schedules s run :=
  exec_outputs step_entered h

/-- After one more cycle everything that was scheduled before it has been executed. -/
theorem executed_of_cycle (hw : s.Wired) {es : List (SyncEvent α)} (hrun : exec step s es = some t)
    (hs : s.due = none) (ht : t.due = none) (hcycle : s.cycle < t.cycle) :
    s.queue.entered <+: t.queue.done.map Prod.fst := by
  have hkeep (u : SyncCallbacks α) (e : SyncEvent α) (v : SyncCallbacks α)
      (hu : u.Wired ∧ u.Serves s.queue.entered.length s.cycle) (hstep : u.step e = some v) :
      v.Wired ∧ v.Serves s.queue.entered.length s.cycle :=
    ⟨step_wired hu.1 hstep, step_serves hu.1 hu.2 hstep⟩
  have hstart : s.Serves s.queue.entered.length s.cycle := ⟨Nat.le_refl _, .inl ⟨rfl, hs⟩⟩
  obtain ⟨hwt, -, hserves⟩ := exec_invariant hkeep ⟨hw, hstart⟩ hrun
  have hentered : s.queue.entered <+: t.queue.entered := by
    rw [exec_entered hrun]
    exact List.prefix_append _ _
  have hexecuting := hwt.executing_eq_false ht
  have hdone : s.queue.entered.length ≤ t.queue.done.length := by
    rcases hserves with ⟨h, -⟩ | ⟨-, -, due, h, -⟩ | ⟨h, -⟩ | h
    · exact absurd h (Nat.ne_of_gt hcycle)
    · rw [ht] at h
      cases h
    · cases hexecuting.symm.trans h
    · exact h
  refine List.prefix_of_prefix_length_le hentered t.queue.done_prefix ?_
  rwa [List.length_map]

/-- For the callbacks that were scheduled, anywhere on the loop thread and at any depth. -/
structure InOrder (scheduled : List (Scheduled α)) (s : SyncCallbacks α) : Prop where
  once : s.queue.done.map Prod.fst <+: scheduled
  later : ∀ entry ∈ s.queue.done, ∀ n ∈ entry.1.scheduledIn, n < entry.2
  handle : s.due = none →
    (s.haveActive = true ↔ s.executors.length = 1) ∧ s.executors.length ≤ 1 ∧
      (s.queue.waiting ≠ [] → s.haveActive = true)
  served : s.due = none → ∀ es t, exec step s es = some t → t.due = none → s.cycle < t.cycle →
    scheduled <+: t.queue.done.map Prod.fst

theorem Wired.length_executors (h : s.Wired) :
    (s.haveActive = true ↔ s.executors.length = 1) ∧ s.executors.length ≤ 1 := by
  rw [h.executors]
  cases s.haveActive with
  | false => exact ⟨by simp, by simp⟩
  | true => exact ⟨by simp, by simp⟩

/-- The callbacks that the events of a run schedule are executed in this order, each at most once,
and once when a further cycle is over; one that a callback schedules comes in a later cycle. The
executor has one active handle exactly when the flag is set, and it is set while callbacks wait. -/
theorem scheduled_callbacks_executed {run : List (SyncEvent α)} (h : exec step {} run = some s) :
    s.InOrder (outputs step schedules {} run) := by
  have hkeep (u : SyncCallbacks α) (e : SyncEvent α) (v : SyncCallbacks α)
      (hu : u.Wired ∧ u.Later) (hstep : u.step e = some v) : v.Wired ∧ v.Later :=
    ⟨step_wired hu.1 hstep, step_later hu.1 hu.2 hstep⟩
  obtain ⟨hwired, hlater⟩ := exec_invariant hkeep ⟨start_wired, start_later⟩ h
  have hentered : s.queue.entered = outputs step schedules {} run :=
    exec_entered h
  rw [← hentered]
  exact
    { once := s.queue.done_prefix
      later := hlater.done
      handle := fun _ => ⟨hwired.length_executors.1, hwired.length_executors.2, hwired.waiting⟩
      served := fun hs _ _ hrun ht hcycle => executed_of_cycle hwired hrun hs ht hcycle }

/-- Two callbacks are scheduled before the loop runs. The first schedules a third one, which keeps
the executor active for another cycle; a fourth needs a new handle. -/
def scheduledNested : List (SyncEvent Nat) :=
  [.scheduleCallback 1, .scheduleCallback 2, .beginCycle, .onIdle 1, .next, .scheduleCallback 3,
    .leave, .next, .leave, .executed, .endCycle, .beginCycle, .onIdle 1, .next, .leave, .executed,
    .scheduleCallback 4, .endCycle]

theorem scheduled_callbacks_executed_nested :
    ∃ s, exec step {} scheduledNested = some s ∧
      s.queue.done.map (fun entry => (entry.1.callback, entry.2)) = [(1, 1), (2, 1), (3, 2)] ∧
      s.idles = [⟨2, .executor⟩] ∧
      outputs step schedules {} scheduledNested = [⟨1, none⟩, ⟨2, none⟩, ⟨3, some 1⟩, ⟨4, none⟩] ∧
      s.InOrder (outputs step schedules {} scheduledNested) := by
  have hend : ∃ s ∈ exec step {} scheduledNested,
      (s.queue.done.map fun entry => (entry.1.callback, entry.2)) = [(1, 1), (2, 1), (3, 2)] ∧
        s.idles = [⟨2, .executor⟩] := by
    decide +kernel
  obtain ⟨s, hrun, hdone, hidles⟩ := hend
  exact ⟨s, hrun, hdone, hidles, by decide +kernel, scheduled_callbacks_executed hrun⟩

end SyncCallbacks

end TarmIo.Loop
