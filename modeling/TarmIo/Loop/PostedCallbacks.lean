import TarmIo.Foundation.BatchQueue
import TarmIo.Foundation.Execution

/-!
# `execute_on_loop_thread` and `run` of `EventLoop.cpp`

The queue that any thread may post to, and the loop thread in `run`. A step is what one thread
does without the others seeing a state in between: the sections under the mutex are steps of
their own, so a post can come between any two of them. `uv_run` calls `on_async` some time after
`uv_async_send`, and may return before.

`run` reads the size of the queue first and takes the callbacks out of it later. What is posted in
between is executed, but by a round after which `run` does not look again.
-/

namespace TarmIo.Loop

open Foundation

/-- A callback in `m_async_callbacks_queue`. `postedIn` is the number of the run in which the loop
thread posted it from one of its callbacks. -/
structure Posted (α : Type*) where
  callback : α
  postedIn : Option Nat
deriving DecidableEq

/-- Where the loop thread is: outside of `run`, in `uv_run`, in `on_async`, or between the calls of
the loop in `run`. The status is that of `uv_run`. -/
inductive RunPhase
  | stopped
  | polling
  | async
  | exited (status : Int)
  | checked (status : Int) (hasPendingCallbacks : Bool)
  | executing (status : Int) (hasPendingCallbacks : Bool)
deriving DecidableEq

/-- The end of a run: its number, what it returned and the callbacks left in the queue. -/
structure RunReturn (α : Type*) where
  run : Nat
  status : Int
  left : List (Posted α)
deriving DecidableEq

/-- The queue with the callbacks executed so far, each with the number of the run. `running` says
that one of them is running, `unsent` counts posts whose `uv_async_send` is to come. -/
structure AsyncCallbacks (α : Type*) where
  queue : BatchQueue (Posted α) Nat := {}
  phase : RunPhase := .stopped
  running : Bool := false
  unsent : Nat := 0
  signalled : Bool := false
  runs : Nat := 0
  returns : List (RunReturn α) := []

inductive AsyncEvent (α : Type*)
  | executeOnLoopThread (callback : α) (onLoop : Bool)
  | asyncSend
  | run
  | onAsync
  | next
  | leave
  | asyncDone
  | uvRunReturns (status : Int)
  | readSize
  | swap
  | executed
deriving DecidableEq

namespace AsyncCallbacks

variable {α : Type*}

def inCallback (s : AsyncCallbacks α) : Bool :=
  s.running || s.phase == .polling

def executeOnLoopThread (s : AsyncCallbacks α) (callback : α) (onLoop : Bool) :
    AsyncCallbacks α :=
  { s with
    queue := s.queue.push { callback, postedIn := if onLoop then some s.runs else none }
    unsent := s.unsent + 1 }

def Drained (s : AsyncCallbacks α) : Prop := s.running = false ∧ s.queue.batch.isEmpty = true

instance (s : AsyncCallbacks α) : Decidable s.Drained := inferInstanceAs (Decidable (_ ∧ _))

def executesPending (s : AsyncCallbacks α) : Bool :=
  match s.phase with
  | .async | .executing .. => true
  | .stopped | .polling | .exited _ | .checked .. => false

/-- `run` after `execute_pending_callbacks`: another round, or the end. -/
def finishRound (s : AsyncCallbacks α) (status : Int) (hasPendingCallbacks : Bool) :
    AsyncCallbacks α :=
  if status = 0 ∧ hasPendingCallbacks = true then { s with phase := .polling }
  else
    { s with
      phase := .stopped
      returns := s.returns ++ [{ run := s.runs, status, left := s.queue.waiting }] }

def step (s : AsyncCallbacks α) : AsyncEvent α → Option (AsyncCallbacks α)
  | .executeOnLoopThread callback onLoop =>
      if onLoop = true → s.inCallback = true then some (s.executeOnLoopThread callback onLoop)
      else none
  | .asyncSend =>
      if 0 < s.unsent then some { s with unsent := s.unsent - 1, signalled := true } else none
  | .run =>
      if s.phase = .stopped then some { s with phase := .polling, runs := s.runs + 1 } else none
  | .onAsync =>
      if s.phase = .polling ∧ s.signalled = true then
        some { s with phase := .async, signalled := false, queue := s.queue.swap }
      else none
  | .next =>
      if s.executesPending = true ∧ s.running = false then
        (s.queue.next s.runs).map fun queue => { s with queue, running := true }
      else none
  | .leave => if s.running = true then some { s with running := false } else none
  | .asyncDone =>
      if s.phase = .async ∧ s.Drained then some { s with phase := .polling } else none
  | .uvRunReturns status =>
      if s.phase = .polling then some { s with phase := .exited status } else none
  | .readSize =>
      match s.phase with
      | .exited status => some { s with phase := .checked status (!s.queue.waiting.isEmpty) }
      | _ => none
  | .swap =>
      match s.phase with
      | .checked status pending =>
          some { s with phase := .executing status pending, queue := s.queue.swap }
      | _ => none
  | .executed =>
      match s.phase with
      | .executing status pending =>
          if s.Drained then some (s.finishRound status pending) else none
      | _ => none

/-! ## What a run leaves in the queue -/

/-- No callback that was posted in a run from inside of it is left when the run returns zero. -/
def NothingLeft (s : AsyncCallbacks α) : Prop :=
  ∀ r ∈ s.returns, r.status = 0 → ∀ p ∈ r.left, p.postedIn ≠ some r.run

/-- Nothing is posted by a callback that is executed after the queue was found empty: the run ends
behind it. -/
def Heard (s : AsyncCallbacks α) : AsyncEvent α → Prop
  | .executeOnLoopThread _ true => s.phase ≠ .executing 0 false
  | _ => True

instance (s : AsyncCallbacks α) (e : AsyncEvent α) : Decidable (s.Heard e) := by
  unfold Heard
  split <;> infer_instance

def Overheard (s : AsyncCallbacks α) : Prop :=
  s.phase = .executing 0 false ∧ ∃ p ∈ s.queue.waiting, p.postedIn = some s.runs

variable {s t : AsyncCallbacks α} {e : AsyncEvent α}

theorem nothingLeft_finishRound {status : Int} {pending : Bool}
    (hphase : s.phase = .executing status pending) :
    (s.finishRound status pending).NothingLeft ↔ s.NothingLeft ∧ ¬ s.Overheard := by
  unfold finishRound
  split
  · rename_i hround
    have hnot : ¬ s.Overheard := by
      rintro ⟨hlast, -⟩
      rw [hphase, hround.2] at hlast
      cases hlast
    exact (and_iff_left hnot).symm
  · rename_i hend
    simp only [NothingLeft, List.mem_append, List.mem_singleton, or_imp, forall_and, forall_eq]
    refine and_congr_right fun _ => ?_
    constructor
    · rintro hleft ⟨hlast, p, hp, hposted⟩
      rw [hphase] at hlast
      cases hlast
      exact hleft rfl p hp hposted
    · intro hnot hzero p hp hposted
      have hpending : pending = false := by simpa [hzero] using hend
      exact hnot ⟨by rw [hphase, hzero, hpending], p, hp, hposted⟩

theorem not_overheard_finishRound (s : AsyncCallbacks α) (status : Int) (pending : Bool) :
    ¬ (s.finishRound status pending).Overheard := by
  unfold finishRound
  split
  · rintro ⟨hlast, -⟩
    cases hlast
  · rintro ⟨hlast, -⟩
    cases hlast

/-- The end of a round is where something is left. -/
theorem executed_spec (hstep : s.step .executed = some t) :
    (t.NothingLeft ↔ s.NothingLeft ∧ ¬ s.Overheard) ∧ ¬ t.Overheard := by
  rw [step] at hstep
  split at hstep
  · rename_i status pending hphase
    split at hstep
    · cases hstep
      exact ⟨nothingLeft_finishRound hphase, not_overheard_finishRound s status pending⟩
    · cases hstep
  · cases hstep

theorem overheard_executeOnLoopThread (s : AsyncCallbacks α) (callback : α) (onLoop : Bool) :
    (s.executeOnLoopThread callback onLoop).Overheard ↔
      s.Overheard ∨ ¬ s.Heard (.executeOnLoopThread callback onLoop) := by
  cases onLoop with
  | false => simp [Overheard, Heard, executeOnLoopThread, BatchQueue.push, or_and_right, exists_or]
  | true =>
      simp only [Overheard, Heard, executeOnLoopThread, BatchQueue.push, List.mem_append,
        List.mem_singleton, or_and_right, exists_or, exists_eq_left, if_true, or_true, and_true,
        not_not]
      exact ⟨Or.inr, fun h => h.elim And.left id⟩

/-- Away from the last round nothing is overheard. -/
theorem not_overheard_of_phase (h : s.phase ≠ .executing 0 false) : ¬ s.Overheard :=
  fun hover => h hover.1

/-- A step that does not end a round. -/
theorem step_spec (he : e ≠ .executed) (hstep : s.step e = some t) :
    t.returns = s.returns ∧ (t.Overheard ↔ s.Overheard ∨ ¬ s.Heard e) := by
  have hmoves {p q : RunPhase} (hs : s.phase = p) (ht : t.phase = q) (hp : p ≠ .executing 0 false)
      (hq : q ≠ .executing 0 false) : t.Overheard ↔ s.Overheard ∨ ¬ True :=
    iff_of_false (not_overheard_of_phase (ht ▸ hq))
      (not_or.mpr ⟨not_overheard_of_phase (hs ▸ hp), not_not.mpr trivial⟩)
  cases e with
  | executeOnLoopThread callback onLoop =>
      obtain ⟨-, rfl⟩ := by simpa [step] using hstep
      exact ⟨rfl, overheard_executeOnLoopThread s callback onLoop⟩
  | asyncSend =>
      obtain ⟨-, rfl⟩ := by simpa [step] using hstep
      exact ⟨rfl, by simp [Overheard, Heard]⟩
  | run =>
      obtain ⟨hphase, rfl⟩ := by simpa [step] using hstep
      exact ⟨rfl, hmoves hphase rfl (by simp) (by simp)⟩
  | onAsync =>
      obtain ⟨⟨hphase, -⟩, rfl⟩ := by simpa [step] using hstep
      exact ⟨rfl, hmoves hphase rfl (by simp) (by simp)⟩
  | next =>
      obtain ⟨-, queue, hnext, rfl⟩ := by simpa [step] using hstep
      obtain ⟨-, -, -, hwaiting, -⟩ := BatchQueue.next_eq_some hnext
      exact ⟨rfl, by simp [Overheard, Heard, hwaiting]⟩
  | leave =>
      obtain ⟨-, rfl⟩ := by simpa [step] using hstep
      exact ⟨rfl, by simp [Overheard, Heard]⟩
  | asyncDone =>
      obtain ⟨⟨hphase, -⟩, rfl⟩ := by simpa [step] using hstep
      exact ⟨rfl, hmoves hphase rfl (by simp) (by simp)⟩
  | uvRunReturns status =>
      obtain ⟨hphase, rfl⟩ := by simpa [step] using hstep
      exact ⟨rfl, hmoves hphase rfl (by simp) (by simp)⟩
  | readSize =>
      rw [step] at hstep
      split at hstep
      · rename_i status hphase
        cases hstep
        exact ⟨rfl, hmoves hphase rfl (by simp) (by simp)⟩
      · cases hstep
  | swap =>
      rw [step] at hstep
      split at hstep
      · rename_i status pending hphase
        cases hstep
        have hbefore : ¬ s.Overheard := not_overheard_of_phase (by simp [hphase])
        refine ⟨rfl, iff_of_false ?_ (not_or.mpr ⟨hbefore, not_not.mpr trivial⟩)⟩
        -- the round has just taken everything that waited
        rintro ⟨-, p, hp, -⟩
        cases hp
      · cases hstep
  | executed => exact absurd rfl he

/-- Nothing was left, and nothing is going to be left by what was posted so far. -/
def Clear (s : AsyncCallbacks α) : Prop := s.NothingLeft ∧ ¬ s.Overheard

theorem step_clear (hstep : s.step e = some t) : t.Clear ↔ s.Clear ∧ s.Heard e := by
  by_cases he : e = .executed
  · subst he
    obtain ⟨hleft, hover⟩ := executed_spec hstep
    rw [Clear, hleft, Clear]
    exact ⟨fun h => ⟨h.1, trivial⟩, fun h => ⟨h.1, hover⟩⟩
  · obtain ⟨hreturns, hover⟩ := step_spec he hstep
    rw [Clear, Clear, hover, NothingLeft, hreturns, not_or, not_not, and_assoc]
    rfl

theorem start_clear : ({} : AsyncCallbacks α).Clear :=
  ⟨by simp [NothingLeft], not_overheard_of_phase (by simp)⟩

/-- For any number of posting threads. The callbacks that were executed are the first of those that
entered the queue, in this order. A run that has returned zero has left one of its own behind
exactly when a callback posted in a round that came after the queue was found empty; such a
round is the last one, and is looked at when it is over. -/
theorem posted_callbacks_executed_iff {run : List (AsyncEvent α)} (h : exec step {} run = some s) :
    s.queue.done.map Prod.fst <+: s.queue.entered ∧
      (s.phase ≠ .executing 0 false → (s.NothingLeft ↔ Along step Heard {} run)) := by
  refine ⟨s.queue.done_prefix, fun hphase => ?_⟩
  have hend : ¬ s.Overheard := not_overheard_of_phase hphase
  have hclear := exec_iff_along (fun _ _ _ (_ : True) _ => trivial)
    (fun _ _ _ _ hs => step_clear hs) trivial h
  rw [Clear, and_iff_left hend, and_iff_right start_clear] at hclear
  exact hclear

/-- Callback 1 comes from another thread after the size was read. It is executed, and posts
callback 2. -/
def postedBehindCheck : List (AsyncEvent Nat) :=
  [.run, .uvRunReturns 0, .readSize, .executeOnLoopThread 1 false, .asyncSend, .swap, .next,
    .executeOnLoopThread 2 true, .asyncSend, .leave, .executed]

theorem posted_callback_left :
    (exec step {} postedBehindCheck).map (fun s => (s.phase, s.returns)) =
      some (.stopped,
        [{ run := 1, status := 0, left := [{ callback := 2, postedIn := some 1 }] }]) ∧
    ∃ s, exec step {} postedBehindCheck = some s ∧ ¬ s.NothingLeft := by
  have hend : (exec step {} postedBehindCheck).map (fun s => (s.phase, s.returns)) =
      some (.stopped,
        [{ run := 1, status := 0, left := [{ callback := 2, postedIn := some 1 }] }]) := by
    decide +kernel
  refine ⟨hend, ?_⟩
  obtain ⟨s, hrun, hs⟩ := Option.map_eq_some_iff.mp hend
  obtain ⟨-, hreturns⟩ := Prod.mk.inj hs
  refine ⟨s, hrun, fun hnone => ?_⟩
  have hposted := hnone { run := 1, status := 0, left := [⟨2, some 1⟩] } (by rw [hreturns]; simp)
    rfl ⟨2, some 1⟩ (by simp)
  exact hposted rfl

/-- Two threads post, and a callback posts another one that the next round executes. -/
def postedNested : List (AsyncEvent Nat) :=
  [.executeOnLoopThread 1 false, .run, .executeOnLoopThread 2 false, .uvRunReturns 0, .readSize,
    .swap, .next, .executeOnLoopThread 3 true, .leave, .next, .leave, .executed, .asyncSend,
    .onAsync, .next, .leave, .asyncDone, .uvRunReturns 0, .readSize, .swap, .executed]

theorem posted_callbacks_executed_iff_nested :
    ∃ s, exec step {} postedNested = some s ∧ s.phase = .stopped ∧
      s.queue.done.map (fun entry => entry.1.callback) = [1, 2, 3] ∧
      s.queue.done.map Prod.fst <+: s.queue.entered ∧
      (s.NothingLeft ↔ Along step Heard {} postedNested) := by
  have hend : ∃ s ∈ exec step {} postedNested,
      s.phase = .stopped ∧ (s.queue.done.map fun entry => entry.1.callback) = [1, 2, 3] := by
    decide +kernel
  obtain ⟨s, hrun, hphase, hdone⟩ := hend
  have hiff := posted_callbacks_executed_iff hrun
  exact ⟨s, hrun, hphase, hdone, hiff.1, hiff.2 (by rw [hphase]; decide)⟩

end AsyncCallbacks

end TarmIo.Loop
