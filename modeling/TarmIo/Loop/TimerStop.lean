import TarmIo.Loop.Timer

/-!
# Stopping a timer

`stop` makes the handle inactive and leaves the timeouts that are left. `on_timer` looks at these
after the callback, so a `stop` in the callback does not last when there are any.
-/

namespace TarmIo.Timer

open Foundation

/-- No call was made to a stopped timer, and none can come while it is stopped. -/
structure Silent (s : Timer) : Prop where
  calls : ∀ call ∈ s.calls, call.stopped = false
  handle : s.stopped = true → s.handle.due = none

/-- The callback does not return to a timer that was stopped in it, was not started again, and has
timeouts left. -/
def StaysStopped (s : Timer) : Event → Prop
  | .leave => s.stopped = true → s.stateWasReset = true ∨ s.timeoutsMs = []
  | .start .. | .stop | .expire | .advance _ | .scheduled => True

instance (s : Timer) (e : Event) : Decidable (s.StaysStopped e) := by
  rcases e with _ | _ | _ | _ | _ | _ <;> unfold StaysStopped <;> infer_instance

theorem startImpl_stopped (s : Timer) : s.startImpl.stopped = s.stopped := by
  unfold startImpl
  split <;> rfl

theorem finishOnTimer_stopped (s : Timer) : s.finishOnTimer.stopped = s.stopped := by
  unfold finishOnTimer
  split
  · rfl
  · exact startImpl_stopped _

/-- `on_timer` arms the handle after the callback, or leaves it alone. -/
theorem finishOnTimer_due (s : Timer) :
    (s.finishOnTimer.handle.due = s.handle.due ∧ (s.stateWasReset = true ∨ s.timeoutsMs = [])) ∨
      (s.finishOnTimer.handle.due.isSome = true ∧
        ¬ (s.stateWasReset = true ∨ s.timeoutsMs = [])) := by
  unfold finishOnTimer
  by_cases hreset : s.stateWasReset = true
  · exact .inl ⟨by rw [if_pos hreset], .inl hreset⟩
  · rw [if_neg hreset]
    unfold startImpl
    cases htimeouts : s.timeoutsMs with
    | nil => exact .inl ⟨rfl, .inr rfl⟩
    | cons timeout rest => exact .inr ⟨rfl, by simp [hreset]⟩

/-- A `start` without timeouts leaves the handle alone, and one with timeouts ends the stop. -/
theorem Silent.start {s : Timer} (hs : s.Silent) (timeoutsMs : List UInt64) (repeatMs : UInt64)
    (callback : Option Nat) :
    { s.start timeoutsMs repeatMs callback with
      stopped := s.stopped && timeoutsMs.isEmpty }.Silent := by
  unfold Timer.start
  split
  · rename_i hempty
    exact ⟨hs.calls, fun h => hs.handle (by simpa [hempty] using h)⟩
  · rename_i hne
    constructor
    · rw [startImpl_calls]
      exact hs.calls
    · intro h
      simp [hne] at h

/-- An expired timer was not stopped. -/
theorem Silent.onTimer {s : Timer} (hs : s.Silent) (hstopped : s.stopped = false) :
    s.onTimer.Silent := by
  unfold Timer.onTimer
  split
  · constructor
    · rw [finishOnTimer_calls]
      exact hs.calls
    · rw [finishOnTimer_stopped]
      intro h
      cases hstopped.symm.trans h
  · constructor
    · intro call hcall
      rcases List.mem_append.mp hcall with hold | hnew
      · exact hs.calls call hold
      · obtain rfl := List.mem_singleton.mp hnew
        exact hstopped
    · intro h
      cases hstopped.symm.trans h

theorem Silent.step (s : Timer) (e : Event) (s' : Timer) (hs : s.Silent) (hgood : s.StaysStopped e)
    (hstep : s.step e = some s') : s'.Silent := by
  cases e with
  | start timeoutsMs repeatMs callback =>
      cases hstep
      exact hs.start timeoutsMs repeatMs callback
  | stop =>
      cases hstep
      exact ⟨hs.calls, fun _ => rfl⟩
  | leave =>
      rw [Timer.step] at hstep
      split at hstep
      · cases hstep
      · cases hstep
        constructor
        · rw [finishOnTimer_calls]
          exact hs.calls
        · rw [finishOnTimer_stopped]
          intro hstopped
          rcases finishOnTimer_due { s with running := none } with ⟨hdue, _⟩ | ⟨_, hrearmed⟩
          · rw [hdue]
            exact hs.handle hstopped
          · exact absurd (hgood hstopped) hrearmed
  | expire =>
      rw [Timer.step] at hstep
      split at hstep
      · rename_i hexpired
        cases hstep
        refine hs.onTimer (Bool.eq_false_iff.mpr fun hstopped => ?_)
        rw [hs.handle hstopped] at hexpired
        cases hexpired.2
      · cases hstep
  | advance now =>
      obtain ⟨_, rfl⟩ := by simpa [Timer.step] using hstep
      exact ⟨hs.calls, hs.handle⟩
  | scheduled =>
      obtain ⟨_, rfl⟩ := by simpa [Timer.step] using hstep
      exact ⟨hs.calls, hs.handle⟩

/-- The return of the callback arms a stopped timer. -/
theorem not_silent_of_rearmed (s : Timer) (e : Event) (s' : Timer) (_ : s.Silent)
    (hbad : ¬ s.StaysStopped e) (hstep : s.step e = some s') : ¬ s'.Silent := by
  cases e with
  | start | stop | expire | advance | scheduled => exact absurd trivial hbad
  | leave =>
      obtain ⟨hstopped, hrearms⟩ : s.stopped = true ∧
          ¬ (s.stateWasReset = true ∨ s.timeoutsMs = []) := Classical.not_imp.mp hbad
      intro hs
      rw [Timer.step] at hstep
      split at hstep
      · cases hstep
      · cases hstep
        have hdue := hs.handle (by rw [finishOnTimer_stopped]; exact hstopped)
        rcases finishOnTimer_due { s with running := none } with ⟨_, hkeeps⟩ | ⟨hsome, _⟩
        · exact hrearms hkeeps
        · rw [hdue] at hsome
          cases hsome

/-- A stopped timer stays silent exactly when no callback returns to a timer that was stopped in
it, was not started again with timeouts, and has timeouts left. -/
theorem stopped_silent_iff {run : List Event} {s : Timer} (hrun : exec step {} run = some s) :
    Throughout step Silent {} run ↔ Along step StaysStopped {} run := by
  refine throughout_iff_along (fun _ hs => hs) Silent.step not_silent_of_rearmed ?_ hrun
  constructor
  · intro call hcall
    cases hcall
  · intro h
    cases h

def stopInCallback : List Event :=
  [.start [10, 20] 0 (some 1), .advance 10, .expire, .stop, .leave, .advance 30, .expire]

/-- Its callback is called again all the same. -/
theorem stopped_timer_calls :
    ∃ s ∈ exec step {} stopInCallback,
      s.calls.map (fun call => (call.time, call.stopped)) = [(10, false), (30, true)] := by
  decide

/-- A `stop` between two expirations lasts. -/
theorem stopped_silent_iff_between :
    Throughout step Silent {}
      [.start [10, 20] 0 (some 1), .advance 10, .expire, .leave, .stop, .advance 40] := by
  have hrun : ∃ s ∈ exec step {}
      [.start [10, 20] 0 (some 1), .advance 10, .expire, .leave, .stop, .advance 40],
        s.stopped = true := by decide
  obtain ⟨s, hs, _⟩ := hrun
  exact (stopped_silent_iff hs).mpr (by decide)

end TarmIo.Timer
