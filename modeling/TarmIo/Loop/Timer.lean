import TarmIo.Foundation.Execution

/-!
# `Timer.cpp`

A timer with its libuv handle. libuv stops an expired handle and starts it again when it has a
repeat, and then calls `on_timer`, which calls the user's callback and goes on after it. The
machine stops in the callback, where the user may call `start` and `stop`. Callbacks have numbers,
and a null callback is `none`. Times are those of the loop, in milliseconds; libuv's addition does
not saturate here.

`m_last_callback_time` and the removal of the timer are left out.
-/

namespace TarmIo

open Foundation

namespace Timer

/-- `uv_timer_t`: when it is due, if it is active, and its repeat. -/
structure Handle where
  due : Option Nat := none
  repeatMs : UInt64 := 0
deriving DecidableEq

namespace Handle

def start (now : Nat) (timeoutMs repeatMs : UInt64) : Handle where
  due := some (now + timeoutMs.toNat)
  repeatMs := repeatMs

def stop (h : Handle) : Handle := { h with due := none }

def again (now : Nat) (h : Handle) : Handle :=
  if h.repeatMs = 0 then h else start now h.repeatMs h.repeatMs

end Handle

/-- Where the callback lives that runs: `start` moves it out of `m_callback`, and a second `start`
destroys it. -/
inductive Home
  | callback
  | oldCallback
  | destroyed
deriving DecidableEq

/-- A call of the user's callback: the time, what `timeout_ms` and `callback_call_counter` return
in it, and whether the timer was stopped then. -/
structure Invocation where
  callback : Nat
  time : Nat
  timeoutMs : UInt64
  callCounter : UInt64
  stopped : Bool
deriving DecidableEq

end Timer

/-- The members of `Timer::Impl`, the loop's time and the number of its scheduled callbacks that
clear `m_old_callback`. Then what is only observed: the callback that runs, the calls so far, and
whether `stop` was called and no `start` with timeouts since. -/
structure Timer where
  handle : Timer.Handle := {}
  callback : Option Nat := none
  oldCallback : Option Nat := none
  timeoutsMs : List UInt64 := []
  currentTimeoutMs : UInt64 := 0
  repeatMs : UInt64 := 0
  callCounter : UInt64 := 0
  stateWasReset : Bool := false
  now : Nat := 0
  scheduled : Nat := 0
  running : Option Timer.Home := none
  calls : List Timer.Invocation := []
  stopped : Bool := false
deriving DecidableEq

namespace Timer

/-! ## The user's calls -/

/-- Never called without timeouts. -/
def startImpl (s : Timer) : Timer :=
  match s.timeoutsMs with
  | [] => s
  | timeout :: rest =>
      { s with
        handle := .start s.now timeout (if rest = [] then s.repeatMs else 0)
        currentTimeoutMs := timeout
        timeoutsMs := rest }

@[simp] theorem startImpl_calls (s : Timer) : s.startImpl.calls = s.calls := by
  unfold startImpl
  split <;> rfl

def Home.afterStart : Home → Home
  | .callback => .oldCallback
  | .oldCallback | .destroyed => .destroyed

/-- The overloads pass one timeout with a repeat or without, or a list without a repeat. Without
timeouts the counter alone is reset. -/
def start (s : Timer) (timeoutsMs : List UInt64) (repeatMs : UInt64) (callback : Option Nat) :
    Timer :=
  if timeoutsMs = [] then { s with callCounter := 0 }
  else
    { s with
      callCounter := 0
      stateWasReset := true
      oldCallback := s.callback
      scheduled := s.scheduled + 1
      timeoutsMs
      repeatMs
      callback
      running := s.running.map Home.afterStart }.startImpl

@[simp] theorem start_calls (s : Timer) (timeoutsMs : List UInt64) (repeatMs : UInt64)
    (callback : Option Nat) : (s.start timeoutsMs repeatMs callback).calls = s.calls := by
  unfold start
  split
  · rfl
  · exact startImpl_calls _

def stop (s : Timer) : Timer := { s with handle := s.handle.stop }

/-! ## `on_timer` -/

def finishOnTimer (s : Timer) : Timer :=
  if s.stateWasReset then s
  else { s with callCounter := s.callCounter + 1 }.startImpl

@[simp] theorem finishOnTimer_calls (s : Timer) : s.finishOnTimer.calls = s.calls := by
  unfold finishOnTimer
  split
  · rfl
  · exact startImpl_calls _

def expire (s : Timer) : Timer :=
  { s with handle := s.handle.stop.again s.now, stateWasReset := false }

def invoke (s : Timer) (callback : Nat) : Timer :=
  { s with
    running := some .callback
    calls := s.calls ++
      [{ callback
         time := s.now
         timeoutMs := s.currentTimeoutMs
         callCounter := s.callCounter
         stopped := s.stopped }] }

def onTimer (s : Timer) : Timer :=
  match s.callback with
  | none => s.expire.finishOnTimer
  | some callback => s.expire.invoke callback

theorem onTimer_calls (s : Timer) :
    s.onTimer.calls = s.calls ++ s.callback.toList.map fun callback =>
      { callback
        time := s.now
        timeoutMs := s.currentTimeoutMs
        callCounter := s.callCounter
        stopped := s.stopped } := by
  rw [onTimer]
  cases s.callback with
  | none => exact (finishOnTimer_calls _).trans (List.append_nil _).symm
  | some callback => rfl

/-! ## Events -/

/-- The user's calls, the end of the callback, and what the loop does: an expiration, the passing
of time, and the scheduled callback that clears `m_old_callback`. -/
inductive Event
  | start (timeoutsMs : List UInt64) (repeatMs : UInt64) (callback : Option Nat)
  | stop
  | leave
  | expire
  | advance (now : Nat)
  | scheduled
deriving DecidableEq

def step (s : Timer) : Event → Option Timer
  | .start timeoutsMs repeatMs callback =>
      some { s.start timeoutsMs repeatMs callback with stopped := s.stopped && timeoutsMs.isEmpty }
  | .stop => some { s.stop with stopped := true }
  | .leave =>
      match s.running with
      | none => none
      | some _ => some { s with running := none }.finishOnTimer
  | .expire =>
      if s.running = none ∧ (s.handle.due.any (· ≤ s.now)) = true then some s.onTimer else none
  | .advance now => if s.running = none ∧ s.now ≤ now then some { s with now } else none
  | .scheduled =>
      if s.running = none ∧ 0 < s.scheduled then
        some { s with oldCallback := none, scheduled := s.scheduled - 1 }
      else none

end Timer

end TarmIo
