import TarmIo.Loop.Timer

/-!
# The schedule of a timer

Runs without `stop` on a loop that is never late: time does not pass a due handle, and the loop's
time does not change in the callback. Each expiration is recorded with the `start` that it counts
from, its number since that `start` and the calls that it has led to. The first two say when it has
to happen, which callback is called, and what that callback has to see.
-/

namespace TarmIo.Timer

open Foundation

/-! ## What is promised -/

structure Start where
  time : Nat
  timeoutsMs : List UInt64
  repeatMs : UInt64
  callback : Option Nat
deriving DecidableEq

namespace Start

/-- The time between expiration `k` and the one before it, or the call of `start`. -/
def gap (st : Start) (k : Nat) : Nat := (st.timeoutsMs[k]?.getD st.repeatMs).toNat

def due (st : Start) : Nat → Nat
  | 0 => st.time + st.gap 0
  | k + 1 => st.due k + st.gap (k + 1)

def Expects (st : Start) (k : Nat) : Prop := k < st.timeoutsMs.length ∨ st.repeatMs ≠ 0

instance (st : Start) (k : Nat) : Decidable (st.Expects k) :=
  inferInstanceAs (Decidable (_ ∨ _))

end Start

/-- An expiration: the `start` that it counts from, its number, the time, and the calls of a
callback that were made in it. -/
structure Expiration where
  start : Start
  index : Nat
  time : Nat
  calls : List Invocation
deriving DecidableEq

/-- One call of the callback of the `start`, or none if that is null. The counter is a `size_t`. -/
structure Expiration.OnSchedule (e : Expiration) : Prop where
  expected : e.start.Expects e.index
  time : e.time = e.start.due e.index
  called : e.calls.map Invocation.callback = e.start.callback.toList
  callTime : ∀ call ∈ e.calls, call.time = e.time
  timeout : ∀ call ∈ e.calls, ∀ timeout ∈ e.start.timeoutsMs[e.index]?, call.timeoutMs = timeout
  counter : ∀ call ∈ e.calls, call.callCounter = UInt64.ofNat e.index

/-! ## The observed timer -/

/-- A timer, its most recent `start`, the number of expirations since, and all expirations. -/
structure Observed where
  timer : Timer := {}
  last : Option Start := none
  count : Nat := 0
  log : List Expiration := []
deriving DecidableEq

namespace Observed

def observe (x : Observed) : Event → Timer → Observed
  | .start timeoutsMs repeatMs callback, timer =>
      { x with
        timer
        last := some { time := x.timer.now, timeoutsMs, repeatMs, callback }
        count := 0 }
  | .expire, timer =>
      { x with
        timer
        count := x.count + 1
        log := x.log ++ x.last.toList.map fun start =>
          { start
            index := x.count
            time := x.timer.now
            calls := timer.calls.drop x.timer.calls.length } }
  | .stop, timer | .leave, timer | .advance _, timer | .scheduled, timer => { x with timer }

def step (x : Observed) (e : Event) : Option Observed := (x.timer.step e).map (x.observe e)

/-- `start` with timeouts, at most once in each callback; no `stop`; a loop that is never late. -/
def InTime (x : Observed) : Event → Prop
  | .start timeoutsMs _ _ =>
      timeoutsMs ≠ [] ∧ (x.timer.running = none ∨ x.timer.running = some .callback)
  | .stop => False
  | .advance now => ∀ due ∈ x.timer.handle.due, now ≤ due
  | .leave | .expire | .scheduled => True

instance (x : Observed) (e : Event) : Decidable (x.InTime e) := by
  unfold InTime
  split <;> infer_instance

/-! ## The invariant -/

variable {s : Timer} {timeout : UInt64} {rest : List UInt64} {st : Start} {k : Nat}

/-- The timer waits for expiration `k` of `st`, or for nothing. -/
structure Waits (s : Timer) (st : Start) (k : Nat) : Prop where
  callback : s.callback = st.callback
  repeatMs : s.repeatMs = st.repeatMs
  timeouts : s.timeoutsMs = st.timeoutsMs.drop (k + 1)
  timeout : ∀ timeout ∈ st.timeoutsMs[k]?, s.currentTimeoutMs = timeout
  counter : s.callCounter = UInt64.ofNat k
  due : s.handle.due = if st.Expects k then some (st.due k) else none
  again : s.handle.repeatMs = if k + 1 < st.timeoutsMs.length then 0 else st.repeatMs
  early : ∀ due ∈ s.handle.due, s.now ≤ due

structure Expires (s : Timer) (st : Start) (k : Nat) : Prop where
  callback : s.callback = st.callback
  repeatMs : s.repeatMs = st.repeatMs
  timeouts : s.timeoutsMs = st.timeoutsMs.drop (k + 1)
  counter : s.callCounter = UInt64.ofNat k
  now : s.now = st.due k
  kept : s.stateWasReset = false
  due : ¬ k + 1 < st.timeoutsMs.length →
    s.handle.due = if st.repeatMs = 0 then none else some (st.due k + st.repeatMs.toNat)
  again : ¬ k + 1 < st.timeoutsMs.length → s.handle.repeatMs = st.repeatMs

theorem startImpl_of_cons (h : s.timeoutsMs = timeout :: rest) :
    s.startImpl =
      { s with
        handle := .start s.now timeout (if rest = [] then s.repeatMs else 0)
        currentTimeoutMs := timeout
        timeoutsMs := rest } := by
  rw [startImpl, h]

theorem startImpl_of_nil (h : s.timeoutsMs = []) : s.startImpl = s := by
  rw [startImpl, h]

theorem gap_of_cons (h : st.timeoutsMs.drop k = timeout :: rest) : st.gap k = timeout.toNat := by
  have hk : st.timeoutsMs[k]? = some timeout := by
    rw [← List.head?_drop, h]
    rfl
  rw [Start.gap, hk]
  rfl

theorem gap_of_length_le (h : st.timeoutsMs.length ≤ k) : st.gap k = st.repeatMs.toNat := by
  rw [Start.gap, List.getElem?_eq_none h]
  rfl

/-- The timeouts that are left decide whether the handle repeats. -/
theorem repeat_of_drop (h : st.timeoutsMs.drop k = timeout :: rest) :
    (if rest = [] then st.repeatMs else 0) =
      if k + 1 < st.timeoutsMs.length then 0 else st.repeatMs := by
  have hlength : st.timeoutsMs.length - k = rest.length + 1 := by
    rw [← List.length_drop, h, List.length_cons]
  cases rest with
  | nil => rw [if_pos rfl, if_neg (by simp at hlength; omega)]
  | cons _ _ => rw [if_neg (by simp), if_pos (by simp at hlength; omega)]

/-- `start_impl` arms the handle for the first timeout that is left. -/
theorem waits_startImpl (hleft : st.timeoutsMs.drop k = timeout :: rest)
    (htimeouts : s.timeoutsMs = timeout :: rest) (hcallback : s.callback = st.callback)
    (hrepeat : s.repeatMs = st.repeatMs) (hcounter : s.callCounter = UInt64.ofNat k)
    (hdue : s.now + st.gap k = st.due k) : Waits s.startImpl st k := by
  have hk : st.timeoutsMs[k]? = some timeout := by
    rw [← List.head?_drop, hleft]
    rfl
  have hexpects : st.Expects k := .inl (List.getElem?_eq_some_iff.mp hk).1
  rw [startImpl_of_cons htimeouts]
  exact
    { callback := hcallback
      repeatMs := hrepeat
      timeouts := by rw [← List.drop_drop, hleft]; rfl
      timeout := by
        intro timeout' h
        rw [hk] at h
        exact Option.mem_some_iff.mp h
      counter := hcounter
      due := by
        rw [if_pos hexpects, ← hdue, gap_of_cons hleft]
        rfl
      again := by
        rw [← repeat_of_drop hleft, ← hrepeat]
        rfl
      early := by
        intro due h
        cases h
        exact Nat.le_add_right _ _ }

/-- After the callback the handle is started for the next timeout, at the time of the expiration
that was; after the last one libuv has started it already, if it repeats. -/
theorem Expires.waits_next (h : Expires s st k) : Waits s.finishOnTimer st (k + 1) := by
  have hcounter : s.callCounter + 1 = UInt64.ofNat (k + 1) := by
    rw [h.counter, UInt64.ofNat_add]
    rfl
  have htimeouts := h.timeouts
  rw [finishOnTimer, if_neg (by simp [h.kept])]
  cases hleft : st.timeoutsMs.drop (k + 1) with
  | cons timeout rest =>
      rw [hleft] at htimeouts
      refine waits_startImpl hleft htimeouts h.callback h.repeatMs hcounter ?_
      exact congrArg (· + st.gap (k + 1)) h.now
  | nil =>
      rw [hleft] at htimeouts
      have hend : st.timeoutsMs.length ≤ k + 1 := List.drop_eq_nil_iff.mp hleft
      have hexpects : st.Expects (k + 1) ↔ st.repeatMs ≠ 0 := or_iff_right (by omega)
      have hdue : s.handle.due = if st.Expects (k + 1) then some (st.due (k + 1)) else none := by
        rw [h.due (by omega), Start.due, gap_of_length_le hend]
        by_cases hrepeat : st.repeatMs = 0
        · rw [if_pos hrepeat, if_neg (fun hex => hexpects.mp hex hrepeat)]
        · rw [if_neg hrepeat, if_pos (hexpects.mpr hrepeat)]
      rw [startImpl_of_nil (s := { s with callCounter := s.callCounter + 1 }) htimeouts]
      exact
        { callback := h.callback
          repeatMs := h.repeatMs
          timeouts := by
            rw [← List.drop_drop, hleft, List.drop_nil]
            exact htimeouts
          timeout := by
            intro timeout' hmem
            rw [List.getElem?_eq_none hend] at hmem
            cases hmem
          counter := hcounter
          due := hdue
          again := by
            rw [if_neg (by omega)]
            exact h.again (by omega)
          early := by
            intro due hmem
            have hmem : due ∈ s.handle.due := hmem
            rw [hdue] at hmem
            split at hmem
            · cases hmem
              exact Nat.le_trans (Nat.le_of_eq h.now) (Nat.le_add_right _ _)
            · cases hmem }

theorem Waits.expires (h : Waits s st k) (hexpired : s.handle.due.any (· ≤ s.now) = true) :
    (st.Expects k ∧ s.now = st.due k) ∧ Expires s.expire st k := by
  have hdue : st.Expects k ∧ s.now = st.due k := by
    have hearly := h.early
    rw [h.due] at hexpired hearly
    split at hexpired
    · rename_i hexpects
      rw [if_pos hexpects] at hearly
      exact ⟨hexpects, Nat.le_antisymm (hearly _ rfl) (of_decide_eq_true hexpired)⟩
    · cases hexpired
  have hrepeat (hlast : ¬ k + 1 < st.timeoutsMs.length) : s.handle.stop.repeatMs = st.repeatMs := by
    rw [Handle.stop, h.again, if_neg hlast]
  refine ⟨hdue, ?_⟩
  exact
    { callback := h.callback
      repeatMs := h.repeatMs
      timeouts := h.timeouts
      counter := h.counter
      now := hdue.2
      kept := rfl
      due := by
        intro hlast
        change (s.handle.stop.again s.now).due = _
        rw [Handle.again, hrepeat hlast, ← hdue.2]
        split <;> rfl
      again := by
        intro hlast
        change (s.handle.stop.again s.now).repeatMs = _
        rw [Handle.again, hrepeat hlast]
        split
        · exact hrepeat hlast
        · rfl }

/-- Between expirations, in a callback in which `start` was called, and in one in which it was not.
The callback that runs lives in each of them. -/
inductive Phase (x : Observed) (st : Start) : Prop
  | rest (hrunning : x.timer.running = none) (hwaits : Waits x.timer st x.count)
  | restarted (hrunning : x.timer.running = some .oldCallback)
      (hreset : x.timer.stateWasReset = true) (hwaits : Waits x.timer st x.count)
  | callback (k : Nat) (hrunning : x.timer.running = some .callback) (hcount : x.count = k + 1)
      (hexpires : Expires x.timer st k)

/-- The expirations since the most recent `start` are numbered from zero. -/
def Counted (x : Observed) (st : Start) : Prop :=
  ∃ earlier since, x.log = earlier ++ since ∧
    since.map (fun e => (e.start, e.index)) = (List.range x.count).map (Prod.mk st)

structure Punctual (x : Observed) : Prop where
  log : ∀ e ∈ x.log, e.OnSchedule
  calls : x.timer.calls = x.log.flatMap Expiration.calls
  counted : ∀ st ∈ x.last, x.Counted st
  unstarted : x.last = none → x.timer.handle.due = none ∧ x.timer.running = none
  phase : ∀ st ∈ x.last, Phase x st

/-! ## Steps and runs -/

variable {x : Observed} {timeoutsMs : List UInt64}

theorem step_eq_some {x x' : Observed} {e : Event} :
    x.step e = some x' ↔ ∃ timer, x.timer.step e = some timer ∧ x' = x.observe e timer := by
  simp only [step, Option.map_eq_some_iff, eq_comm (a := x')]

theorem waits_start (s : Timer) (repeatMs : UInt64) (callback : Option Nat)
    (hne : timeoutsMs ≠ []) :
    Waits (s.start timeoutsMs repeatMs callback)
      { time := s.now, timeoutsMs, repeatMs, callback } 0 := by
  rw [Timer.start, if_neg hne]
  cases timeoutsMs with
  | nil => exact absurd rfl hne
  | cons timeout rest => exact waits_startImpl rfl rfl rfl rfl rfl rfl

theorem start_running (s : Timer) (repeatMs : UInt64) (callback : Option Nat)
    (hne : timeoutsMs ≠ []) :
    (s.start timeoutsMs repeatMs callback).running = s.running.map Home.afterStart ∧
      (s.start timeoutsMs repeatMs callback).stateWasReset = true := by
  rw [Timer.start, if_neg hne, startImpl]
  split <;> exact ⟨rfl, rfl⟩

theorem finishOnTimer_running (s : Timer) : s.finishOnTimer.running = s.running := by
  unfold finishOnTimer startImpl
  split
  · rfl
  · split <;> rfl

/-- Without a callback `on_timer` is done at once. -/
theorem Expires.phase (h : Expires s.expire st k) (hrunning : s.running = none)
    (htimer : x.timer = s.onTimer) (hcount : x.count = k + 1) : Phase x st := by
  rw [onTimer] at htimer
  cases hcallback : s.callback with
  | none =>
      rw [hcallback] at htimer
      refine .rest ?_ ?_
      · rw [htimer, finishOnTimer_running]
        exact hrunning
      · rw [htimer, hcount]
        exact h.waits_next
  | some callback =>
      rw [hcallback] at htimer
      refine .callback k ?_ hcount ?_
      · rw [htimer]
        rfl
      · rw [htimer]
        exact { h with }

theorem Waits.onSchedule (h : Waits s st k) (hexpects : st.Expects k) (hnow : s.now = st.due k) :
    Expiration.OnSchedule
      { start := st, index := k, time := s.now, calls := s.onTimer.calls.drop s.calls.length } := by
  rw [onTimer_calls, List.drop_left, h.callback]
  refine ⟨hexpects, hnow, ?_, ?_, ?_, ?_⟩
  · rw [List.map_map]
    exact List.map_id _
  · intro call hcall
    obtain ⟨callback, _, rfl⟩ := List.mem_map.mp hcall
    rfl
  · intro call hcall
    obtain ⟨callback, _, rfl⟩ := List.mem_map.mp hcall
    exact h.timeout
  · intro call hcall
    obtain ⟨callback, _, rfl⟩ := List.mem_map.mp hcall
    exact h.counter

theorem Punctual.start (hx : x.Punctual) (repeatMs : UInt64) (callback : Option Nat)
    (hne : timeoutsMs ≠ []) (hrunning : x.timer.running = none ∨ x.timer.running = some .callback) :
    (x.observe (.start timeoutsMs repeatMs callback)
      { x.timer.start timeoutsMs repeatMs callback with
        stopped := x.timer.stopped && timeoutsMs.isEmpty }).Punctual := by
  have hwaits := waits_start x.timer repeatMs callback hne
  obtain ⟨hmoved, hreset⟩ := start_running x.timer repeatMs callback hne
  refine ⟨hx.log, (start_calls ..).trans hx.calls, ?_, ?_, ?_⟩
  · intro st _
    exact ⟨x.log, [], (List.append_nil _).symm, rfl⟩
  · intro h
    cases h
  · intro st hst
    cases hst
    rcases hrunning with hnone | hcallback
    · rw [hnone] at hmoved
      exact .rest hmoved { hwaits with }
    · rw [hcallback] at hmoved
      exact .restarted hmoved hreset { hwaits with }

theorem Punctual.leave (hx : x.Punctual) {home : Home} (hrunning : x.timer.running = some home) :
    (x.observe .leave { x.timer with running := none }.finishOnTimer).Punctual := by
  refine ⟨hx.log, (finishOnTimer_calls _).trans hx.calls, hx.counted, ?_, ?_⟩
  · intro hlast
    cases hrunning.symm.trans (hx.unstarted hlast).2
  · intro st hst
    refine .rest (finishOnTimer_running _) ?_
    cases hx.phase st hst with
    | rest hnone _ => cases hrunning.symm.trans hnone
    | restarted _ hreset hwaits =>
        change Waits (finishOnTimer { x.timer with running := none }) st x.count
        rw [finishOnTimer, if_pos hreset]
        exact { hwaits with }
    | callback k _ hcount hexpires =>
        change Waits (finishOnTimer { x.timer with running := none }) st x.count
        rw [hcount]
        exact Expires.waits_next { hexpires with }

theorem Punctual.waits (hx : x.Punctual) (hrunning : x.timer.running = none)
    (hst : x.last = some st) : Waits x.timer st x.count := by
  cases hx.phase st hst with
  | rest _ hwaits => exact hwaits
  | restarted hsome _ _ => cases hrunning.symm.trans hsome
  | callback _ hsome _ _ => cases hrunning.symm.trans hsome

theorem Counted.expire (h : x.Counted st) (hlast : x.last = some st) (timer : Timer) :
    (x.observe .expire timer).Counted st := by
  obtain ⟨earlier, since, hlog, hnumbers⟩ := h
  refine ⟨earlier, since ++ _, (congrArg (· ++ _) hlog).trans (List.append_assoc ..), ?_⟩
  change _ = (List.range (x.count + 1)).map _
  rw [hlast, List.map_append, hnumbers, List.range_succ, List.map_append]
  rfl

theorem Punctual.expire (hx : x.Punctual) (hrunning : x.timer.running = none)
    (hexpired : x.timer.handle.due.any (· ≤ x.timer.now) = true) :
    (x.observe .expire x.timer.onTimer).Punctual := by
  cases hlast : x.last with
  | none =>
      rw [(hx.unstarted hlast).1] at hexpired
      cases hexpired
  | some st =>
      have hwaits := hx.waits hrunning hlast
      obtain ⟨⟨hexpects, hnow⟩, hexpires⟩ := hwaits.expires hexpired
      refine ⟨?_, ?_, ?_, ?_, ?_⟩
      · intro e he
        rcases List.mem_append.mp he with hold | hnew
        · exact hx.log e hold
        · rw [hlast] at hnew
          obtain rfl := List.mem_singleton.mp hnew
          exact hwaits.onSchedule hexpects hnow
      · simp [observe, hlast, hx.calls.symm, onTimer_calls]
      · intro st' hst'
        obtain rfl : st = st' := Option.some.inj (hlast.symm.trans hst')
        exact (hx.counted st hlast).expire hlast x.timer.onTimer
      · intro h
        cases hlast.symm.trans h
      · intro st' hst'
        obtain rfl : st = st' := Option.some.inj (hlast.symm.trans hst')
        exact hexpires.phase hrunning rfl rfl

/-- Steps that neither touch the timer's own state nor let time pass a due handle. -/
theorem Punctual.frame (hx : x.Punctual) {timer : Timer} (hrunning : x.timer.running = none)
    (hkept : timer.running = none) (hcalls : timer.calls = x.timer.calls)
    (hdue : timer.handle.due = x.timer.handle.due)
    (hwaits : ∀ st k, Waits x.timer st k → Waits timer st k) : { x with timer }.Punctual := by
  refine ⟨hx.log, hcalls.trans hx.calls, hx.counted, ?_, ?_⟩
  · intro hlast
    exact ⟨hdue.trans (hx.unstarted hlast).1, hkept⟩
  · intro st hst
    cases hx.phase st hst with
    | rest _ h => exact .rest hkept (hwaits st _ h)
    | restarted hsome _ _ => cases hrunning.symm.trans hsome
    | callback _ hsome _ _ => cases hrunning.symm.trans hsome

theorem Punctual.step (x : Observed) (e : Event) (x' : Observed) (hx : x.Punctual)
    (hstep : restrict InTime step x e = some x') : x'.Punctual := by
  obtain ⟨hdomain, hstep⟩ := restrict_eq_some.mp hstep
  obtain ⟨timer, htimer, rfl⟩ := step_eq_some.mp hstep
  cases e with
  | start timeoutsMs repeatMs callback =>
      cases htimer
      exact hx.start repeatMs callback hdomain.1 hdomain.2
  | stop => exact hdomain.elim
  | leave =>
      rw [Timer.step] at htimer
      split at htimer
      · cases htimer
      · rename_i home hrunning
        cases htimer
        exact hx.leave hrunning
  | expire =>
      rw [Timer.step] at htimer
      split at htimer
      · rename_i h
        cases htimer
        exact hx.expire h.1 h.2
      · cases htimer
  | advance now =>
      rw [Timer.step] at htimer
      split at htimer
      · rename_i h
        cases htimer
        refine hx.frame h.1 h.1 rfl rfl fun st k hwaits => ?_
        exact { hwaits with early := hdomain }
      · cases htimer
  | scheduled =>
      rw [Timer.step] at htimer
      split at htimer
      · rename_i h
        cases htimer
        exact hx.frame h.1 h.1 rfl rfl fun st k hwaits => { hwaits with }
      · cases htimer

theorem punctual_init : ({} : Observed).Punctual := by
  refine ⟨?_, rfl, ?_, fun _ => ⟨rfl, rfl⟩, ?_⟩
  · intro e he
    cases he
  · intro st hst
    cases hst
  · intro st hst
    cases hst

/-- A `start` without a repeat has no more expirations than timeouts. -/
theorem Punctual.count_le (hx : x.Punctual) (hst : x.last = some st) (hrepeat : st.repeatMs = 0) :
    x.count ≤ st.timeoutsMs.length := by
  obtain ⟨earlier, since, hlog, hnumbers⟩ := hx.counted st hst
  rcases Nat.eq_zero_or_pos x.count with hzero | hpos
  · omega
  · have hlatest : (st, x.count - 1) ∈ since.map fun e => (e.start, e.index) := by
      rw [hnumbers]
      exact List.mem_map_of_mem (List.mem_range.mpr (by omega))
    obtain ⟨e, he, hnumber⟩ := List.mem_map.mp hlatest
    have hexpected := (hx.log e (hlog ▸ List.mem_append_right _ he)).expected
    rw [(Prod.mk.inj hnumber).1, (Prod.mk.inj hnumber).2] at hexpected
    rcases hexpected with hlt | hne
    · omega
    · exact absurd hrepeat hne

/-- An expiration that is promised comes when time has passed. -/
theorem Punctual.comes (hx : x.Punctual) (hrunning : x.timer.running = none)
    (hst : x.last = some st) (hexpects : st.Expects x.count) :
    ∃ x' ∈ exec (restrict InTime Observed.step) x [.advance (st.due x.count), .expire],
      x'.count = x.count + 1 := by
  have hwaits := hx.waits hrunning hst
  have hdue : x.timer.handle.due = some (st.due x.count) := by
    rw [hwaits.due, if_pos hexpects]
  have hlate : ∀ due ∈ x.timer.handle.due, st.due x.count ≤ due := by
    intro due h
    rw [hdue] at h
    cases h
    exact Nat.le_refl _
  let due : Observed := { x with timer := { x.timer with now := st.due x.count } }
  have hadvance : restrict InTime Observed.step x (.advance (st.due x.count)) = some due := by
    refine restrict_eq_some.mpr ⟨hlate, step_eq_some.mpr ⟨due.timer, ?_, rfl⟩⟩
    exact if_pos ⟨hrunning, hwaits.early _ hdue⟩
  have hany : due.timer.handle.due.any (· ≤ st.due x.count) = true := by
    change x.timer.handle.due.any (· ≤ st.due x.count) = true
    rw [hdue]
    exact decide_eq_true (Nat.le_refl _)
  have hexpire : restrict InTime Observed.step due .expire =
      some (due.observe .expire due.timer.onTimer) := by
    refine restrict_eq_some.mpr ⟨trivial, step_eq_some.mpr ⟨due.timer.onTimer, ?_, rfl⟩⟩
    exact if_pos ⟨hrunning, hany⟩
  refine ⟨due.observe .expire due.timer.onTimer, ?_, rfl⟩
  rw [exec_cons_of_step hadvance, exec_cons_of_step hexpire]
  rfl

theorem Punctual.alive (hx : x.Punctual) : x.timer.running ≠ some .destroyed := by
  intro hdestroyed
  cases hlast : x.last with
  | none => cases hdestroyed.symm.trans (hx.unstarted hlast).2
  | some st =>
      cases hx.phase st hlast with
      | rest hrunning _ => cases hdestroyed.symm.trans hrunning
      | restarted hrunning _ _ => cases hdestroyed.symm.trans hrunning
      | callback _ hrunning _ _ => cases hdestroyed.symm.trans hrunning

/-- What is left of the promise of a `start`: the expirations since it are numbered from zero, are
no more than its timeouts without a repeat, and between expirations the handle is due when the next
promised one is, which comes, or is inactive when there is none. -/
structure Follows (x : Observed) (st : Start) : Prop where
  counted : x.Counted st
  count_le : st.repeatMs = 0 → x.count ≤ st.timeoutsMs.length
  due : x.timer.running = none →
    x.timer.handle.due = if st.Expects x.count then some (st.due x.count) else none
  comes : x.timer.running = none → st.Expects x.count →
    ∃ x' ∈ exec (restrict InTime step) x [.advance (st.due x.count), .expire],
      x'.count = x.count + 1

/-- Every expiration is the one that its `start` promises for its number, the callback is called in
expirations only, the most recent `start` is followed, and no callback is destroyed while it
runs. -/
theorem timer_on_schedule {run : List Event} {x : Observed}
    (hrun : exec (restrict InTime step) {} run = some x) :
    (∀ e ∈ x.log, e.OnSchedule) ∧ x.timer.calls = x.log.flatMap Expiration.calls ∧
      (∀ st, x.last = some st → x.Follows st) ∧ x.timer.running ≠ some .destroyed := by
  have hx : x.Punctual := exec_invariant Punctual.step punctual_init hrun
  refine ⟨hx.log, hx.calls, fun st hst => ?_, hx.alive⟩
  exact
    { counted := hx.counted st hst
      count_le := hx.count_le hst
      due := fun hrunning => (hx.waits hrunning hst).due
      comes := fun hrunning hexpects => hx.comes hrunning hst hexpects }

def restartInCallback : List Event :=
  [.start [5] 3 (some 1), .advance 5, .expire, .leave, .advance 8, .expire,
    .start [2, 4] 0 (some 2), .leave, .advance 10, .expire, .leave, .advance 14, .expire, .leave]

theorem timer_on_schedule_restart :
    ∃ x ∈ exec (restrict InTime step) {} restartInCallback,
      (∀ e ∈ x.log, e.OnSchedule) ∧
        x.log.map (fun e => (e.time, e.calls.map Invocation.callback, e.index)) =
          [(5, [1], 0), (8, [1], 1), (10, [2], 0), (14, [2], 1)] := by
  have hrun : ∃ x ∈ exec (restrict InTime step) {} restartInCallback,
      x.log.map (fun e => (e.time, e.calls.map Invocation.callback, e.index)) =
        [(5, [1], 0), (8, [1], 1), (10, [2], 0), (14, [2], 1)] := by
    decide +kernel
  obtain ⟨x, hx, hlog⟩ := hrun
  exact ⟨x, hx, (timer_on_schedule hx).1, hlog⟩

end Observed

end TarmIo.Timer
